import Mathlib
import Jianpu.Proofs.Frac.Reading
import Jianpu.Proofs.Frac.Order
import Jianpu.Proofs.Text.Cuts
import Jianpu.Music.Props
/-!
# Time signatures

A time signature is written `n/d`, with an optional swing mark `T` or `t` and an optional
grouping `=a+b+…`. The reader refuses a beat count or unit that is not positive, a beat count
whose four times leaves a 64-bit word, and a grouping whose running total leaves one.

What survives those guards is a `Meter.Valid` signature (`parse_valid`), and a valid signature
is what the rest of the score relies on:

* its beat unit and section length are exact positive quarters, `4 / d` and `4 n / d`
  (`unit_exact`, `sectionQuarters_exact`): the guard on `4 n` keeps the product a word;
* its written form reads back as itself, with the same grouping mismatch (`parse_display`):
  the digits of the numbers hold none of the marks that cut the text.
-/

namespace Jianpu

namespace Decimal

theorem readIntIn_bounds {lo hi v : Int} {s : String} (h : readIntIn lo hi s = some v) :
    lo ≤ v ∧ v ≤ hi := by
  unfold readIntIn at h
  split at h
  rename_i negative digits _
  by_cases hdig : digits.isEmpty = true
  · simp [hdig] at h
  · cases hd : digitValue digits with
    | none => simp [hdig, hd] at h
    | some n =>
      simp only [hdig, hd, Bool.false_eq_true, if_false, Option.ite_none_right_eq_some,
        Option.some.injEq] at h
      obtain ⟨hv, rfl⟩ := h
      exact hv

theorem fitsWord_of_nonneg {x : Int} (h0 : 0 ≤ x) (h : x ≤ i64Max) : Frac.fitsWord x = true := by
  rw [Frac.fitsWord_iff]
  simp only [i64Max] at h
  omega

end Decimal

namespace Meter

/-- The running sum of the grouping, refused once it leaves a word. -/
theorem foldlM_sum_eq_some {cs : List Int} {acc s : Int}
    (h : cs.foldlM (fun acc c => if Frac.fitsWord (acc + c) then some (acc + c) else none) acc
      = some s) : s = acc + cs.sum ∧ (cs ≠ [] → Frac.fitsWord s = true) := by
  induction cs generalizing acc with
  | nil =>
    simp only [List.foldlM_nil] at h
    cases h
    simp
  | cons c cs ih =>
    rw [List.foldlM_cons] at h
    split at h
    · rename_i hfit
      obtain ⟨hs, hne⟩ := ih h
      refine ⟨by rw [hs, List.sum_cons]; ring, fun _ => ?_⟩
      by_cases hcs : cs = []
      · subst hcs
        simp only [List.foldlM_nil] at h
        cases h
        exact hfit
      · exact hne hcs
    · cases h

/-- Positive parts whose total fits a word are summed without leaving it. -/
theorem foldlM_sum_of_pos {cs : List Int} {acc : Int} (hpos : ∀ c ∈ cs, 0 < c) (hacc : 0 ≤ acc)
    (hfit : acc + cs.sum ≤ Decimal.i64Max) :
    cs.foldlM (fun acc c => if Frac.fitsWord (acc + c) then some (acc + c) else none) acc
      = some (acc + cs.sum) := by
  induction cs generalizing acc with
  | nil => simp
  | cons c cs ih =>
    have hc := hpos c List.mem_cons_self
    have hrest : ∀ c ∈ cs, 0 < c := fun x hx => hpos x (List.mem_cons_of_mem _ hx)
    -- the partial sum lies between `0` and the total
    have hle : 0 ≤ cs.sum := List.sum_nonneg fun x hx => (hrest x hx).le
    have hstep : Frac.fitsWord (acc + c) = true := by
      simp only [List.sum_cons] at hfit
      exact Decimal.fitsWord_of_nonneg (by omega) (by omega)
    have htail := @ih (acc + c) hrest (by omega) (by simp only [List.sum_cons] at hfit; omega)
    rw [List.foldlM_cons, if_pos hstep, Option.bind_eq_bind, Option.bind_some, htail,
      List.sum_cons, Int.add_assoc]

end Meter

theorem mem_toString_digit {x : Int} (hx : 0 ≤ x) {c : Char} (h : c ∈ (toString x).toList) :
    c.isDigit = true := by
  rw [Frac.toList_toString, if_neg (by omega), List.nil_append] at h
  exact Nat.isDigit_of_mem_toDigits (by omega) (by omega) h

theorem not_mark_of_isDigit {c : Char} (h : c.isDigit = true) :
    c ≠ '=' ∧ c ≠ '/' ∧ c ≠ '+' ∧ c ≠ 'T' ∧ c ≠ 't' := by
  refine ⟨?_, ?_, ?_, ?_, ?_⟩ <;> rintro rfl <;> simp at h

theorem toString_ne_nil (x : Int) : (toString x).toList ≠ [] := by
  rw [Frac.toList_toString]
  simp [Nat.toDigits_ne_nil]

theorem mapM_option_eq_some_iff {β γ : Type} {f : β → Option γ} :
    ∀ {l : List β} {vs : List γ}, l.mapM f = some vs ↔ List.Forall₂ (fun b v => f b = some v) l vs
  | [], vs => by cases vs <;> simp
  | b :: l, vs => by
    simp only [List.mapM_cons, Option.bind_eq_bind, Option.bind_eq_some_iff, Option.pure_def,
      Option.some.injEq]
    constructor
    · rintro ⟨v, hv, vs', hvs', rfl⟩
      exact .cons hv (mapM_option_eq_some_iff.1 hvs')
    · intro h
      cases h with
      | cons hv hvs => exact ⟨_, hv, _, mapM_option_eq_some_iff.2 hvs, rfl⟩

namespace Meter

/-- A grouping that reads is made of one or more positive words. -/
theorem readComponents_eq_some {g : String} {cs : List Int} (h : readComponents g = some cs) :
    cs ≠ [] ∧ ∀ c ∈ cs, 0 < c ∧ c ≤ Decimal.i64Max := by
  have hall := mapM_option_eq_some_iff.1 h
  refine ⟨?_, fun c hc => ?_⟩
  · -- there is always a piece to read
    have hlen := hall.length_eq
    have hpieces : Text.splitOn g '+' ≠ [] := by
      simp [Text.splitOn, Text.splitOnChars_eq_splitOn, List.splitOn, List.splitOnP_ne_nil]
    intro hnil
    rw [hnil, List.length_nil, List.length_eq_zero_iff] at hlen
    exact hpieces hlen
  · -- every piece reads as a positive word
    clear h
    generalize Text.splitOn g '+' = pieces at hall
    induction hall with
    | nil => cases hc
    | cons hread _ ih =>
      rcases List.mem_cons.1 hc with rfl | hc
      · rw [Option.filter_eq_some_iff] at hread
        have hb := Decimal.readIntIn_bounds hread.1
        exact ⟨by simpa using hread.2, hb.2⟩
      · exact ih hc

/-- A time signature the reader accepts: a positive number of beats, four times over still a
word, a positive beat unit that is a word, and a grouping of positive parts whose total is a
word. -/
structure Valid (m : Meter) : Prop where
  value_pos : 0 < m.value
  defaults_pos : 0 < m.defaults
  quarters_fit : m.value * 4 ≤ Decimal.i64Max
  defaults_fit : m.defaults ≤ Decimal.i64Max
  components_pos : ∀ c ∈ m.components, 0 < c
  sum_fit : m.components.sum ≤ Decimal.i64Max

/-- The grouping's total and the number of beats, when a grouping is written and they
differ. -/
def mismatch (m : Meter) : Option (Int × Int) :=
  if m.components ≠ [] ∧ m.components.sum ≠ m.value then some (m.components.sum, m.value)
  else none

theorem readComponents_intercalate {cs : List Int} (hpos : ∀ c ∈ cs, 0 < c)
    (hsum : cs.sum ≤ Decimal.i64Max) (hne : cs ≠ []) :
    readComponents ("+".intercalate (cs.map toString)) = some cs := by
  have hplus : "+" = String.singleton '+' := rfl
  have hpieces : ∀ s ∈ cs.map toString, '+' ∉ s.toList := by
    simp only [List.mem_map, forall_exists_index, and_imp]
    rintro s c hc rfl hmem
    exact (not_mark_of_isDigit (mem_toString_digit (hpos c hc).le hmem)).2.2.1 rfl
  rw [readComponents, hplus, Text.splitOn_intercalate hpieces (by simpa using hne),
    mapM_option_eq_some_iff, List.forall₂_map_left_iff, List.forall₂_same]
  intro c hc
  -- each part is a positive word, at most the total
  have hle : c ≤ cs.sum := List.single_le_sum (fun x hx => (hpos x hx).le) c hc
  have hfit : Frac.fitsWord c = true := Decimal.fitsWord_of_nonneg (hpos c hc).le (hle.trans hsum)
  rw [Frac.readI64_toString hfit, Option.filter_some, if_pos (by simpa using hpos c hc)]

theorem dropSuffix_singleton_eq_none {s suf : String} {x : Char} (hsuf : suf.toList = [x])
    (h : s.toList.getLast? ≠ some x) : Text.dropSuffix s suf = none := by
  rw [Option.eq_none_iff_forall_ne_some]
  intro r hr
  rw [Text.dropSuffix_eq_some_iff, hsuf] at hr
  exact h (by rw [hr, List.getLast?_append]; simp)

section Written

variable {v d : Int} (hv : 0 ≤ v) (hd : 0 ≤ d)

include hv hd in
theorem signature_marks {mark : String} (hmark : ∀ c ∈ mark.toList, c = 'T' ∨ c = 't') :
    '=' ∉ (toString v ++ toString "/" ++ toString d ++ mark).toList ∧
      '/' ∉ (toString v).toList := by
  have hslash : (toString "/").toList = ['/'] := rfl
  refine ⟨?_, fun hmem => (not_mark_of_isDigit (mem_toString_digit hv hmem)).2.1 rfl⟩
  simp only [String.toList_append, hslash, List.mem_append, List.mem_singleton, not_or]
  refine ⟨⟨⟨fun hmem => (not_mark_of_isDigit (mem_toString_digit hv hmem)).1 rfl, by decide⟩,
    fun hmem => (not_mark_of_isDigit (mem_toString_digit hd hmem)).1 rfl⟩, fun hmem => ?_⟩
  rcases hmark _ hmem with h | h <;> cases h

include hd in
theorem getLast_toString : ∃ c, (toString d).toList.getLast? = some c ∧ c.isDigit = true := by
  obtain ⟨c, hc⟩ := Option.ne_none_iff_exists'.1
    (mt List.getLast?_eq_none_iff.1 (toString_ne_nil d))
  exact ⟨c, hc, mem_toString_digit hd (List.mem_of_getLast? hc)⟩

include hv hd in
theorem splitOnce_grouping {mark : String} (hmark : ∀ c ∈ mark.toList, c = 'T' ∨ c = 't')
    (g : String) :
    Text.splitOnce (toString v ++ toString "/" ++ toString d ++ mark ++ ("=" ++ g)) '=' =
      some (toString v ++ toString "/" ++ toString d ++ mark, g) :=
  Text.splitOnce_eq_some_iff.2 ⟨by simp, (signature_marks hv hd hmark).1⟩

include hv hd in
theorem splitOnce_ungrouped {mark : String} (hmark : ∀ c ∈ mark.toList, c = 'T' ∨ c = 't') :
    Text.splitOnce (toString v ++ toString "/" ++ toString d ++ mark ++ "") '=' = none := by
  rw [String.append_empty]
  exact Text.splitOnce_eq_none_iff.2 (signature_marks hv hd hmark).1

include hv hd in
theorem splitOnce_signature {mark : String} (hmark : ∀ c ∈ mark.toList, c = 'T' ∨ c = 't') :
    Text.splitOnce (toString v ++ toString "/" ++ toString d ++ mark) '/' =
      some (toString v, toString d ++ mark) :=
  Text.splitOnce_eq_some_iff.2 ⟨by simp; rfl, (signature_marks hv hd hmark).2⟩

include hv hd in
theorem splitOnce_signature_ungrouped {mark : String}
    (hmark : ∀ c ∈ mark.toList, c = 'T' ∨ c = 't') :
    Text.splitOnce (toString v ++ toString "/" ++ toString d ++ mark ++ "") '/' =
      some (toString v, toString d ++ mark ++ "") := by
  simpa only [String.append_empty] using splitOnce_signature hv hd hmark

include hd in
theorem dropSuffix_unit {suf : String} {x : Char} (hsuf : suf.toList = [x])
    (hx : x.isDigit = false) : Text.dropSuffix (toString d) suf = none := by
  obtain ⟨c, hc, hdigit⟩ := getLast_toString hd
  refine dropSuffix_singleton_eq_none hsuf ?_
  rw [hc]
  rintro ⟨⟩
  rw [hdigit] at hx
  cases hx

end Written

theorem dropSuffix_append (s t : String) : Text.dropSuffix (s ++ t) t = some s :=
  Text.dropSuffix_eq_some_iff.2 (by simp)

/-- **A written time signature reads back as itself**, with its grouping's mismatch. -/
theorem parse_display {m : Meter} (hm : m.Valid) : parse m.display = some (m, m.mismatch) := by
  obtain ⟨v, d, sw, cs⟩ := m
  obtain ⟨hv, hd, hq, hdw, hpos, hsum⟩ := hm
  dsimp only at hv hd hq hdw hpos hsum
  -- the numbers are words, and four times the beats is one too
  have hvw : Frac.fitsWord v = true := Decimal.fitsWord_of_nonneg hv.le (by omega)
  have hdw' : Frac.fitsWord d = true := Decimal.fitsWord_of_nonneg hd.le hdw
  have hqw : Frac.fitsWord (v * 4) = true := Decimal.fitsWord_of_nonneg (by omega) hq
  have hsumfold := foldlM_sum_of_pos hpos le_rfl (by simpa using hsum)
  -- the swing marks, and what the reader strips from the beat unit's text
  have hT : ∀ c ∈ "T".toList, c = 'T' ∨ c = 't' := by simp
  have ht : ∀ c ∈ "t".toList, c = 'T' ∨ c = 't' := by simp
  have hnone : ∀ c ∈ "".toList, c = 'T' ∨ c = 't' := by simp
  have hTs : "T".toList = ['T'] := rfl
  have hts : "t".toList = ['t'] := rfl
  have htT : Text.dropSuffix (toString d ++ "t") "T" = none := by
    refine dropSuffix_singleton_eq_none hTs ?_
    rw [String.toList_append, hts, List.getLast?_concat]
    decide
  have hdT : Text.dropSuffix (toString d) "T" = none := dropSuffix_unit hd.le hTs rfl
  have hdt : Text.dropSuffix (toString d) "t" = none := dropSuffix_unit hd.le hts rfl
  unfold parse display
  by_cases hne : cs = []
  · subst hne
    cases sw <;>
      simp only [List.isEmpty_nil, if_true, splitOnce_ungrouped hv.le hd.le hT,
        splitOnce_ungrouped hv.le hd.le ht, splitOnce_ungrouped hv.le hd.le hnone,
        splitOnce_signature_ungrouped hv.le hd.le hT, splitOnce_signature_ungrouped hv.le hd.le ht,
        splitOnce_signature_ungrouped hv.le hd.le hnone, Option.bind_eq_bind, Option.bind_some] <;>
      simp only [String.append_empty, dropSuffix_append, htT, hdT, hdt, Frac.readI64_toString hvw,
        Frac.readI64_toString hdw', Option.bind_some] <;>
      simp [hv, hd, hqw, mismatch]
  · cases sw <;>
      simp only [List.isEmpty_iff, hne, if_false, splitOnce_grouping hv.le hd.le hT,
        splitOnce_grouping hv.le hd.le ht, splitOnce_grouping hv.le hd.le hnone,
        splitOnce_signature hv.le hd.le hT, splitOnce_signature hv.le hd.le ht,
        splitOnce_signature hv.le hd.le hnone, Option.bind_eq_bind, Option.bind_some] <;>
      simp only [String.append_empty, dropSuffix_append, htT, hdT, hdt, Frac.readI64_toString hvw,
        Frac.readI64_toString hdw', readComponents_intercalate hpos hsum hne, Option.bind_some] <;>
      simp [hv, hd, hqw, hsumfold, mismatch, hne]

/-- What the reader accepts is a valid time signature; its mismatch is the grouping's, and a
grouping is written exactly when the text has an `=`. -/
theorem parse_valid {t : String} {m : Meter} {p : Option (Int × Int)}
    (h : parse t = some (m, p)) :
    m.Valid ∧ p = m.mismatch ∧ (m.components ≠ [] ↔ '=' ∈ t.toList) := by
  unfold parse at h
  simp only [Option.bind_eq_bind, Option.bind_eq_some_iff] at h
  obtain ⟨⟨num, rest⟩, -, v, -, d, hd, hrest⟩ := h
  split at hrest
  · simp at hrest
  rename_i hguard
  simp only [Bool.or_eq_true, decide_eq_true_eq, Bool.not_eq_true', not_or,
    Bool.not_eq_false] at hguard
  obtain ⟨⟨hv0, hd0⟩, hq⟩ := hguard
  have hdw := (Decimal.readIntIn_bounds hd).2
  rw [Frac.fitsWord_iff] at hq
  cases hs : Text.splitOnce t '=' with
  | none =>
    -- no grouping: no parts, no mismatch
    simp only [hs, Option.bind_some, List.foldlM_nil, Option.pure_def, Option.some.injEq,
      Prod.mk.injEq] at hrest
    obtain ⟨rfl, rfl⟩ := hrest
    refine ⟨⟨by simpa using hv0, by simpa using hd0, by simp [Decimal.i64Max]; omega, hdw,
      by simp, by simp [Decimal.i64Max]⟩, by simp [mismatch], ?_⟩
    simpa using Text.splitOnce_eq_none_iff.1 hs
  | some sg =>
    obtain ⟨sig, g⟩ := sg
    simp only [hs, Option.bind_eq_some_iff] at hrest
    obtain ⟨cs, hcs, sum, hsum, hrest⟩ := hrest
    simp only [Option.pure_def, Option.some.injEq, Prod.mk.injEq] at hrest
    obtain ⟨rfl, rfl⟩ := hrest
    obtain ⟨hne, hpos⟩ := readComponents_eq_some hcs
    obtain ⟨rfl, hsumfit⟩ := foldlM_sum_eq_some hsum
    rw [Frac.fitsWord_iff] at hsumfit
    have hsumfit' := (hsumfit hne).2
    refine ⟨⟨by simpa using hv0, by simpa using hd0, by simp [Decimal.i64Max]; omega, hdw,
      fun c hc => (hpos c hc).1, by simpa [Decimal.i64Max] using hsumfit'⟩, ?_, ?_⟩
    · simp [mismatch, hne]
    · -- a grouping was cut off at an `=`
      obtain ⟨htext, -⟩ := Text.splitOnce_eq_some_iff.1 hs
      simp [hne, htext]

theorem inWords_div {x y : Int} (hx : 0 < x) (hy : 0 < y) (hxw : x ≤ Decimal.i64Max)
    (hyw : y ≤ Decimal.i64Max) : Frac.InWords ((x : ℚ) / y) := by
  have hq : (x : ℚ) / y = Rat.divInt x y := (Rat.divInt_eq_div x y).symm
  -- the parts in lowest terms divide `x` and `y`
  have hnum := Int.le_of_dvd hx (Rat.num_dvd x (by omega : y ≠ 0))
  have hden := Int.le_of_dvd hy (Rat.den_dvd x y)
  have hpos : 0 < ((x : ℚ) / y).num := Rat.num_pos.2 (by positivity)
  rw [← hq] at hnum hden
  refine ⟨?_, ?_, ?_⟩ <;> simp only [Decimal.i64Min, Decimal.i64Max] at * <;> omega

theorem unit_exact {m : Meter} (hm : m.Valid) :
    Frac.Positive m.unit ∧ m.unit.value? = some ((4 : ℚ) / m.defaults) := by
  have hd : m.defaults ≠ 0 := hm.defaults_pos.ne'
  refine ⟨Frac.positive_make (by decide) hm.defaults_pos (by decide) hm.defaults_fit, ?_⟩
  rw [unit, Frac.make_eq_num_den hd, Frac.value?_make_num_den]
  push_cast
  rfl

/-- A full section is `4 * value / defaults` quarters, exactly, positive and readable: four
times the beats is a word, so the product does not overflow. -/
theorem sectionQuarters_exact {m : Meter} (hm : m.Valid) :
    Frac.Positive m.sectionQuarters ∧
      m.sectionQuarters.value? = some ((4 * m.value : ℚ) / m.defaults) := by
  have hv := hm.value_pos
  have hd := hm.defaults_pos
  have hvw : m.value ≤ Decimal.i64Max := by
    have := hm.quarters_fit
    simp only [Decimal.i64Max] at this ⊢
    omega
  obtain ⟨hra, hpa, -⟩ := Frac.positive_make hv (by decide : (0 : Int) < 1) hvw (by decide)
  obtain ⟨hrb, hpb, -⟩ := (unit_exact hm).1
  have ha : (Frac.ofInt m.value).value? = some m.value := by
    rw [Frac.ofInt, Frac.make_eq_num_den one_ne_zero, Frac.value?_make_num_den]
    simp
  have hexact := Frac.mul_exact_step ha (unit_exact hm).2 hra hrb hpa hpb
  -- the product is `4 v / d`, whose lowest terms are words
  have hq :
      (m.value : ℚ) * (4 / m.defaults) = ((4 * m.value : Int) : ℚ) / (m.defaults : Int) := by
    push_cast
    ring
  have hwords : Frac.InWords (((4 * m.value : Int) : ℚ) / (m.defaults : Int)) :=
    inWords_div (x := 4 * m.value) (by omega) hd (by linarith [hm.quarters_fit]) hm.defaults_fit
  rw [hq, Frac.Exact, if_pos hwords] at hexact
  refine ⟨⟨Frac.readable_mul _ _, Frac.proper_mul _ _, _, hexact, by positivity⟩, ?_⟩
  rw [sectionQuarters, ← unit, hexact]
  push_cast
  rfl

/-- A time signature read from a text has a positive beat count and beat unit; its beat unit
and section length are the exact positive quarters `4 / defaults` and `4 * value / defaults`;
its written form reads back as the same signature with the same problem; and the problem is the
grouping's sum against the beat count, reported exactly when a grouping is given and its sum
differs. -/
theorem parse_exact_roundTrip {t : String} {m : Meter} {problem : Option (Int × Int)}
    (h : parse t = some (m, problem)) :
    0 < m.value ∧ 0 < m.defaults ∧
    m.unit.isFinite = true ∧ Frac.Positive m.unit ∧
      m.unit.value? = some ((4 : ℚ) / m.defaults) ∧
    m.sectionQuarters.isFinite = true ∧ Frac.Positive m.sectionQuarters ∧
      m.sectionQuarters.value? = some ((4 * m.value : ℚ) / m.defaults) ∧
    parse m.display = some (m, problem) ∧
    problem = (if m.components ≠ [] ∧ m.components.sum ≠ m.value
      then some (m.components.sum, m.value) else none) := by
  obtain ⟨hm, hp, -⟩ := parse_valid h
  obtain ⟨hunit, hunitv⟩ := unit_exact hm
  obtain ⟨hquarters, hquartersv⟩ := sectionQuarters_exact hm
  refine ⟨hm.value_pos, hm.defaults_pos, Frac.isFinite_of_value? hunitv, hunit, hunitv,
    Frac.isFinite_of_value? hquartersv, hquarters, hquartersv, ?_, hp⟩
  rw [hp]
  exact parse_display hm

/-- Seven eighths grouped two, two and two: the grouping falls one beat short, and the written
form reads back with that problem. -/
theorem parse_exact_roundTrip_short_grouping :
    parse "7/8=2+2+2" = some (⟨7, 8, .none, [2, 2, 2]⟩, some (6, 7)) ∧
      parse (Meter.display ⟨7, 8, .none, [2, 2, 2]⟩) =
        some (⟨7, 8, .none, [2, 2, 2]⟩, some (6, 7)) := by
  have h : parse "7/8=2+2+2" = some (⟨7, 8, .none, [2, 2, 2]⟩, some (6, 7)) := by decide
  exact ⟨h, (parse_exact_roundTrip h).2.2.2.2.2.2.2.2.1⟩

end Meter

end Jianpu
