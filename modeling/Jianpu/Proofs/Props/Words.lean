import Mathlib
import Jianpu.Content.BarlineAttr
import Jianpu.Proofs.Issues.Yields
import Jianpu.Proofs.Text.Cuts
import Jianpu.Proofs.Music.Meter
/-!
# Property and barline words are kept or reported

A word of a properties line is read in the first form it has: a transposition, a key, a tempo, a
time signature, a reduction, or else an extra. The pattern of each form takes digits of any
script, while numbers are read from ASCII digits only. A word kept raises at most the one
warning its form allows (a transposition held in range, beats that do not add up); a word
dropped raises the warning of its form. A barline word that is none of the barline's own is
read as a property word, and kept only when it changes the music from the barline on.

The two meet in one place: a transposition whose digits are not all ASCII matches its pattern
but is no number, and is dropped without a warning.

* `Decimal.Scientific.ofUnsigned_digits`, `PropItem.readFloat_transpose` — digits with perhaps a
  point are a number when they are ASCII.
* `PropItem.formOf`, `PropItem.Form.complaint`, `PropItem.Form.caution` — the form of a word and
  the warnings it may raise.
* `PropItem.Accounted`, `BarlineAttr.Accounted` — what reading one word may do.
* `words_kept_or_reported` — both readers keep or report every word but such transpositions.
-/

namespace Jianpu

/-! ## Transpositions written in ASCII digits are read -/

theorem isDigit_of_ascii {c : Char} (h : Text.isDecimalDigit c = true) (hc : c.toNat < 128) :
    c.isDigit = true := by
  simpa [Text.isDecimalDigit, show c.toNat < 0x80 from hc] using h

theorem toLower_of_isDigit {c : Char} (h : c.isDigit = true) : c.toLower = c := by
  simp only [Char.isDigit, Char.toLower, Bool.and_eq_true, decide_eq_true_eq] at h ⊢
  rw [dif_neg]
  intro hupper
  have h9 := UInt32.le_iff_toNat_le.1 h.2
  have hA := UInt32.le_iff_toNat_le.1 hupper.1
  simp at h9 hA
  omega

namespace Decimal.Scientific

theorem spanDigits_append {a tail : List Char} (hda : ∀ c ∈ a, c.isDigit = true)
    (hnot : ∀ c, tail.head? = some c → c.isDigit = false) :
    spanDigits (a ++ tail) = (a, tail) := by
  unfold spanDigits
  rw [List.takeWhile_append_of_pos hda, List.dropWhile_append_of_pos hda]
  cases tail with
  | nil => simp
  | cons c t => simp [hnot c rfl]

/-- digits, and perhaps a point and more digits, are a finite number -/
theorem ofUnsigned_digits (negative : Bool) {a tail : List Char} (ha : a ≠ [])
    (hda : ∀ c ∈ a, c.isDigit = true)
    (htail : tail = [] ∨ ∃ b, tail = '.' :: b ∧ ∀ c ∈ b, c.isDigit = true) :
    (ofUnsigned negative (a ++ tail)).isSome = true := by
  obtain ⟨d, a', rfl⟩ := List.exists_cons_of_ne_nil ha
  have hd : d.isDigit = true := hda d List.mem_cons_self
  -- the first character is a digit, so the text names no special value
  have hword : ∀ (w : List Char) (x : Char), w.head? = some x → x.isDigit = false →
      lowerAscii (d :: a' ++ tail) ≠ w := by
    intro w x hx hxd heq
    rw [← heq] at hx
    simp only [lowerAscii, List.cons_append, List.map_cons, List.head?_cons, Option.some.injEq,
      toLower_of_isDigit hd] at hx
    rw [← hx, hd] at hxd
    cases hxd
  have hnot : ∀ c, tail.head? = some c → c.isDigit = false := by
    rintro c hc
    rcases htail with rfl | ⟨b, rfl, -⟩
    · simp at hc
    · obtain rfl : '.' = c := by simpa using hc
      rfl
  have hspan : spanDigits (d :: a' ++ tail) = (d :: a', tail) := spanDigits_append hda hnot
  unfold ofUnsigned
  rw [if_neg, if_neg]
  · dsimp only
    rw [hspan]
    rcases htail with rfl | ⟨b, rfl, hdb⟩
    · simp
    · have hb : spanDigits b = (b, []) := by
        simpa using @spanDigits_append b [] hdb (by simp)
      simp [hb]
  · exact hword _ 'n' (by decide) (by decide)
  · simp only [Bool.or_eq_true, decide_eq_true_eq, not_or]
    exact ⟨hword _ 'i' (by decide) (by decide), hword _ 'i' (by decide) (by decide)⟩

theorem ofChars_digit {d : Char} (hd : d.isDigit = true) (r : List Char) :
    ofChars (d :: r) = ofUnsigned false (d :: r) := by
  have hplus : d ≠ '+' := by rintro rfl; simp at hd
  have hminus : d ≠ '-' := by rintro rfl; simp at hd
  unfold ofChars
  split <;> simp_all

end Decimal.Scientific

namespace PropItem

theorem isDigitRun_ascii {cs : List Char} (h : isDigitRun cs = true)
    (hascii : ∀ c ∈ cs, Text.isDecimalDigit c = true → c.toNat < 128) :
    cs ≠ [] ∧ ∀ c ∈ cs, c.isDigit = true := by
  simp only [isDigitRun, Bool.and_eq_true, Bool.not_eq_true', List.isEmpty_eq_false_iff,
    List.all_eq_true] at h
  exact ⟨h.1, fun c hc => isDigit_of_ascii (h.2 c hc) (hascii c hc (h.2 c hc))⟩

/-- A transposition whose digits are all ASCII is read as a number. -/
theorem readFloat_transpose {cs : List Char} (h : looksLikeTranspose cs = true)
    (hascii : ∀ c ∈ cs, Text.isDecimalDigit c = true → c.toNat < 128) :
    (Decimal.readFloat (String.ofList (cs.dropWhile (· = '+')))).isSome = true := by
  cases cs with
  | nil => simp [looksLikeTranspose] at h
  | cons s rest =>
    simp only [looksLikeTranspose, Bool.and_eq_true, Bool.or_eq_true, decide_eq_true_eq] at h
    obtain ⟨hs, hrest⟩ := h
    have hascii' : ∀ c ∈ rest, Text.isDecimalDigit c = true → c.toNat < 128 :=
      fun c hc => hascii c (List.mem_cons_of_mem _ hc)
    -- the sign is followed by digits, perhaps with a point and more digits
    obtain ⟨a, tail, rfl, ha, hda, htail⟩ : ∃ a tail, rest = a ++ tail ∧ a ≠ [] ∧
        (∀ c ∈ a, c.isDigit = true) ∧
        (tail = [] ∨ ∃ b, tail = '.' :: b ∧ ∀ c ∈ b, c.isDigit = true) := by
      split at hrest
      · obtain ⟨hne, hd⟩ := isDigitRun_ascii hrest hascii'
        exact ⟨rest, [], by simp, hne, hd, .inl rfl⟩
      · rename_i a b hsplit
        obtain ⟨rfl, -⟩ := Text.splitOnceChars_eq_some_iff.1 hsplit
        rw [Bool.and_eq_true] at hrest
        obtain ⟨hne, hda⟩ := isDigitRun_ascii hrest.1 fun c hc => hascii' c (by simp [hc])
        obtain ⟨-, hdb⟩ := isDigitRun_ascii hrest.2 fun c hc => hascii' c (by simp [hc])
        exact ⟨a, '.' :: b, rfl, hne, hda, .inr ⟨b, rfl, hdb⟩⟩
    obtain ⟨d, a', rfl⟩ := List.exists_cons_of_ne_nil ha
    have hd : d.isDigit = true := hda d List.mem_cons_self
    have hnum := Decimal.Scientific.ofUnsigned_digits (s = '-') ha hda htail
    rcases hs with rfl | rfl
    · have hplus : d ≠ '+' := by rintro rfl; simp at hd
      simpa [List.dropWhile_cons_of_neg, hplus, Decimal.readFloat,
        Decimal.Scientific.ofChars_digit hd] using hnum
    · simpa [Decimal.readFloat, Decimal.Scientific.ofChars] using hnum

/-- The forms a word of a properties line may take, in the order the reader tries them. -/
inductive Form where
  | transpose | tuning | tempo | meter | reduction | extra
  deriving DecidableEq

def tempoKeys : List (List Char) := [['q', 'p', 'm', '='], ['s', 'p', 'm', '='], ['h', 'p', 'm', '=']]

/-- The first form the word has. -/
def formOf (text : String) : Form :=
  if looksLikeTranspose text.toList then .transpose
  else if (Text.dropPrefix text "1=").isSome then .tuning
  else if text.toList.take 4 ∈ tempoKeys then .tempo
  else if looksLikeMeter text.toList then .meter
  else if (Text.dropPrefix text "r=").isSome then .reduction
  else .extra

/-- The form of an item. -/
def form : PropItem → Form
  | transpose _ => .transpose
  | base _ => .tuning
  | tempo _ => .tempo
  | meter _ => .meter
  | reduction _ => .reduction
  | extra _ => .extra

/-- The warning that drops a malformed word of the form; a transposition and an extra have
none. -/
def Form.complaint (text : String) : Form → Option Problem
  | .tuning => some (.badTuning text)
  | .tempo => some (.badQpm text)
  | .meter => some (.badBeats text)
  | .reduction => some (.badReduction text)
  | .transpose | .extra => none

/-- The key of the one warning with which a word of the form may still be kept. -/
def Form.caution : Form → Option String
  | .transpose => some "transpose_range"
  | .meter => some "unequal_beats"
  | _ => none

def HasWideDigit (text : String) : Prop :=
  ∃ c ∈ text.toList, Text.isDecimalDigit c = true ∧ 128 ≤ c.toNat

/-- What reading the word `text` at `index` of `line` did, returning `r` and raising `w`: kept
it as an item of its first form (an extra as the word itself) with at most the one warning the
form allows; or dropped it with the warning of its form; or dropped without a word a
transposition with a digit beyond ASCII. -/
def Accounted (line index : Nat) (text : String) (r : Option PropItem) (w : List Issue) : Prop :=
  (∀ item, r = some item → item.form = formOf text ∧ (formOf text = .extra → item = .extra text) ∧
    (w = [] ∨ ∃ p, w = [⟨line, index, .warning, p⟩] ∧ item.form.caution = some p.key)) ∧
  (r = none →
    (∃ p, (formOf text).complaint text = some p ∧ w = [⟨line, index, .warning, p⟩]) ∨
    (w = [] ∧ formOf text = .transpose ∧ HasWideDigit text))

theorem clampTranspose_yields (line index : Nat) (v : Float) :
    ∃ v' w, Yields (clampTranspose line index v) v' w ∧
      (w = [] ∨ w = [⟨line, index, .warning, .transposeRange v v'⟩]) := by
  unfold clampTranspose
  split
  · exact ⟨v, [], Yields.pure v, .inl rfl⟩
  · exact ⟨_, _, (Yields.warn line index _).bind (Yields.pure _), .inr rfl⟩

theorem parse_accounted (line index : Nat) (text : String) :
    ∃ r w, Yields (parse line index text) r w ∧ Accounted line index text r w := by
  simp only [Accounted]
  unfold parse
  dsimp only
  by_cases htr : looksLikeTranspose text.toList = true
  · have hform : formOf text = .transpose := by simp [formOf, htr]
    rw [if_pos htr]
    cases hv : Decimal.readFloat (String.ofList (text.toList.dropWhile (· = '+'))) with
    | some v =>
      obtain ⟨v', w, hy, hw⟩ := clampTranspose_yields line index v
      refine ⟨_, w, Yields.bind_pure hy rfl, ?_, by simp⟩
      rintro item ⟨⟩
      refine ⟨hform.symm, by simp [hform], ?_⟩
      rcases hw with rfl | rfl
      · exact .inl rfl
      · exact .inr ⟨_, rfl, rfl⟩
    | none =>
      refine ⟨none, [], Yields.pure _, by simp, fun _ => .inr ⟨rfl, hform, ?_⟩⟩
      by_contra hwide
      have hascii : ∀ c ∈ text.toList, Text.isDecimalDigit c = true → c.toNat < 128 := by
        intro c hc hd
        by_contra hge
        exact hwide ⟨c, hc, hd, by omega⟩
      simpa [hv] using readFloat_transpose htr hascii
  · rw [if_neg htr]
    cases h1 : Text.dropPrefix text "1=" with
    | some name =>
      have hform : formOf text = .tuning := by simp [formOf, htr, h1]
      dsimp only
      cases ht : Tuning.parse name with
      | some t => exact ⟨_, [], Yields.pure _, by simp [form, hform], by simp⟩
      | none =>
        refine ⟨none, _, Yields.warn_then line index _ _, by simp, fun _ => .inl ⟨_, ?_, rfl⟩⟩
        simp [hform, Form.complaint]
    | none =>
      dsimp only
      by_cases hq : text.toList.take 4 ∈ tempoKeys
      · have hform : formOf text = .tempo := by simp [formOf, htr, h1, hq]
        rw [if_pos (by simpa [tempoKeys, or_assoc] using hq)]
        cases ht : Tempo.parse text with
        | some t => exact ⟨_, [], Yields.pure _, by simp [form, hform], by simp⟩
        | none =>
          refine ⟨none, _, Yields.warn_then line index _ _, by simp, fun _ => .inl ⟨_, ?_, rfl⟩⟩
          simp [hform, Form.complaint]
      rw [if_neg (by simpa [tempoKeys, and_assoc] using hq)]
      by_cases hm : looksLikeMeter text.toList = true
      · have hform : formOf text = .meter := by simp [formOf, htr, h1, hq, hm]
        rw [if_pos hm]
        cases hp : Meter.parse text with
        | some mp =>
          obtain ⟨m, problem⟩ := mp
          cases problem with
          | none => exact ⟨_, [], Yields.pure _, by simp [form, hform], by simp⟩
          | some sv =>
            refine ⟨_, _, Yields.warn_then line index _ _, ?_, by simp⟩
            rintro item ⟨⟩
            exact ⟨hform.symm, by simp [hform], .inr ⟨_, rfl, rfl⟩⟩
        | none =>
          refine ⟨none, _, Yields.warn_then line index _ _, by simp, fun _ => .inl ⟨_, ?_, rfl⟩⟩
          simp [hform, Form.complaint]
      rw [if_neg hm]
      cases h2 : Text.dropPrefix text "r=" with
      | some ratio =>
        have hform : formOf text = .reduction := by simp [formOf, htr, h1, hq, hm, h2]
        dsimp only
        split
        · exact ⟨_, [], Yields.pure _, by simp [form, hform], by simp⟩
        · refine ⟨none, _, Yields.warn_then line index _ _, by simp, fun _ => .inl ⟨_, ?_, rfl⟩⟩
          simp [hform, Form.complaint]
      | none =>
        have hform : formOf text = .extra := by simp [formOf, htr, h1, hq, hm, h2]
        dsimp only
        exact ⟨_, [], Yields.pure _, by simp [form, hform], by simp⟩

end PropItem

namespace BarlineAttr

theorem positive_bounds {ds : List Char} {n : Nat} (h : positive ds = some n) :
    0 < n ∧ n < 2 ^ 32 := by
  simp only [positive, Decimal.readU32, Option.filter_eq_some_iff, Option.map_eq_some_iff] at h
  obtain ⟨⟨v, hv, rfl⟩, hpos⟩ := h
  have hb := Decimal.readIntIn_bounds hv
  refine ⟨by simpa using hpos, by omega⟩

/-- What reading the word `text` around a barline at `index` of `line` did, returning `r` and
raising `w`: kept it with at most the one warning a property word's form allows, a count only
in `1 .. 2^32`; or dropped it with one warning, its own or that of a property word; or dropped
without a word a transposition with a digit beyond ASCII. -/
def Accounted (line index : Nat) (text : String) (r : Option BarlineAttr) (w : List Issue) :
    Prop :=
  (∀ a, r = some a → w = [] ∨ ∃ p, w = [⟨line, index, .warning, p⟩] ∧
    (PropItem.formOf text).caution = some p.key) ∧
  (∀ n, r = some (.times n) ∨ r = some (.iter n) → 0 < n ∧ n < 2 ^ 32) ∧
  (r = none →
    (∃ p, w = [⟨line, index, .warning, p⟩] ∧
      (p = .unknownSeparatorAttr text ∨ (PropItem.formOf text).complaint text = some p)) ∨
    (w = [] ∧ PropItem.formOf text = .transpose ∧ PropItem.HasWideDigit text))

theorem parse_accounted (line index : Nat) (text : String) :
    ∃ r w, Yields (BarlineAttr.parse line index text) r w ∧ Accounted line index text r w := by
  simp only [Accounted]
  unfold BarlineAttr.parse
  split
  all_goals try exact ⟨_, [], Yields.pure _, by simp, by simp, by simp⟩
  dsimp only
  repeat' split
  -- a count, a weight, or a weight that is no positive number
  all_goals try
    refine ⟨_, [], Yields.pure _, by simp, ?_, by simp⟩
    rintro m (h | h) <;> cases h <;> exact positive_bounds ‹_›
  all_goals try exact ⟨_, _, Yields.warn_then line index _ _, by simp, by simp,
    fun _ => .inl ⟨_, rfl, .inl rfl⟩⟩
  -- any other word is read as a property item: kept if it changes the music from here on
  all_goals
    obtain ⟨r, w, hy, hkept, hdrop⟩ := PropItem.parse_accounted line index text
    rcases r with _ | (v | b | t | m | q | e)
    · refine ⟨none, w ++ [], Yields.bind hy (Yields.pure _), by simp, by simp, fun _ => ?_⟩
      rcases hdrop rfl with ⟨p, hp, rfl⟩ | hslip
      · exact .inl ⟨p, rfl, .inr hp⟩
      · exact .inr (by simpa using hslip)
    -- a transposition, key, tempo or time signature is kept with what it raised
    any_goals
      refine ⟨_, _, Yields.bind hy (Yields.pure _), fun _ _ => ?_, by simp, by simp⟩
      obtain ⟨hform, -, hw⟩ := hkept _ rfl
      rw [List.append_nil, ← hform]
      exact hw
    -- a reduction or an extra raised nothing, and is dropped with a warning
    all_goals
      obtain ⟨-, -, hw⟩ := hkept _ rfl
      obtain rfl : w = [] := hw.resolve_right (by rintro ⟨p, -, hp⟩; cases hp)
      exact ⟨none, _, Yields.bind hy (Yields.warn_then line index _ _), by simp, by simp,
        fun _ => .inl ⟨_, rfl, .inl rfl⟩⟩

end BarlineAttr

/-- **Property and barline words are kept or reported, save transpositions in wide digits.**
Whatever the word, reading it as a property item either keeps it in the first form it has, with
at most the one warning that form allows, or drops it with the warning of its form; reading it
as a barline attribute either keeps it, a count only in `1 .. 2^32`, or drops it with one
warning. The one word dropped without a warning, by both readers, is a transposition with a
digit beyond ASCII: its pattern takes the digit, its number reader does not. -/
theorem words_kept_or_reported (line index : Nat) (text : String) :
    (∃ r w, Yields (PropItem.parse line index text) r w ∧ PropItem.Accounted line index text r w) ∧
    (∃ r w, Yields (BarlineAttr.parse line index text) r w ∧
      BarlineAttr.Accounted line index text r w) :=
  ⟨PropItem.parse_accounted line index text, BarlineAttr.parse_accounted line index text⟩

end Jianpu
