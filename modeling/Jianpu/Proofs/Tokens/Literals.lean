import Mathlib
import Jianpu.Source.Token
/-!
# String literals, read escape by escape

`Token.quoted` reads the body of a string literal one character at a time. This file says,
apart from how it reads, what a body is and what it stands for, and shows that the reader
keeps to it.

* `Token.escapeValue` — the character that a backslash and an escape form stand for: the
  letter escapes `\\`, `\"`, `\r`, `\n`, `\t`, and `x` with two or `u` with four hexadecimal
  digits that name a character.
* `Token.LiteralBody pos raw value bad` — the body `raw`, starting at position `pos`, stands
  for `value`, with the bad escapes `bad`: a plain character stands for itself, a backslash
  and an escape form for that form's character, a backslash followed by anything but an escape
  form stays as written together with the character after it and is a bad escape at the
  backslash, and a backslash that ends the body stays alone, also a bad escape.
* `Quoted.Stops` — where the reader stopped: at the closing quote, which it read too, or
  before a line end or the end of the text.

`Token.quoted_reads` is the main statement: the reader reads a body, up to the first closing
quote that no backslash escapes, or up to the first line end or the end of the text, and gives
the value and the bad escapes of that body.
-/

namespace Jianpu.Token

/-- The character that a backslash followed by `form` stands for, when `form` is an escape
form: one of the letters `\`, `"`, `r`, `n`, `t`, or `x` with two or `u` with four hexadecimal
digits that name a character. -/
def escapeValue : List Char → Option Char
  | ['\\'] => some '\\'
  | ['"'] => some '"'
  | ['r'] => some '\r'
  | ['n'] => some '\n'
  | ['t'] => some '\t'
  | 'x' :: ds => if ds.length = 2 then hexChar 2 ds else none
  | 'u' :: ds => if ds.length = 4 then hexChar 4 ds else none
  | _ => none

theorem escapeValue_single (c : Char) : escapeValue [c] = simpleEscape c := by
  unfold escapeValue simpleEscape
  split <;> simp_all

theorem hexChar_take (n : Nat) (cs : List Char) : hexChar n (cs.take n) = hexChar n cs := by
  simp [hexChar, List.take_take]

theorem hexChar_length {n : Nat} {cs : List Char} {e : Char} (h : hexChar n cs = some e) :
    n ≤ cs.length := by
  unfold hexChar at h
  by_contra hc
  simp at h
  omega

theorem hexChar_of_head {n : Nat} {ds cs : List Char} (hd : ds <+: cs) (hn : ds.length = n) :
    hexChar n ds = hexChar n cs := by
  obtain ⟨rest, rfl⟩ := hd
  rw [← hexChar_take n (ds ++ rest), List.take_left' hn]

theorem escapeValue_hex {c : Char} {tail : List Char} {n : Nat} {e : Char}
    (hc : c = 'x' ∧ n = 2 ∨ c = 'u' ∧ n = 4) (he : hexChar n tail = some e) :
    escapeValue (c :: tail.take n) = some e := by
  have hl : (tail.take n).length = n := by simp [hexChar_length he]
  rcases hc with ⟨rfl, rfl⟩ | ⟨rfl, rfl⟩
  · simp [escapeValue, hl, hexChar_take, he]
  · simp [escapeValue, hl, hexChar_take, he]

/-- Where a backslash is no letter escape and no hexadecimal escape follows, no escape form
starts after it, however much of the text is taken. -/
theorem escapeValue_eq_none {c : Char} {tail form : List Char} (hs : simpleEscape c = none)
    (hx : c = 'x' → hexChar 2 tail = none) (hu : c = 'u' → hexChar 4 tail = none)
    (hf : form <+: c :: tail) : escapeValue form = none := by
  obtain ⟨rest, hr⟩ := hf
  cases form with
  | nil => rfl
  | cons d ds =>
    obtain ⟨rfl, htail⟩ : d = c ∧ ds ++ rest = tail := by simpa using hr
    have hp : ds <+: tail := ⟨rest, htail⟩
    cases ds with
    | nil => rw [escapeValue_single, hs]
    | cons d' ds' =>
      -- the letter escapes are ruled out by `hs`; what is left are the two digit escapes
      unfold escapeValue
      split <;> simp_all
      · exact fun hl => (hexChar_of_head hp hl).trans hx
      · exact fun hl => (hexChar_of_head hp hl).trans hu

theorem hex_escape_some {c : Char} {tail : List Char} {n : Nat} {e : Char}
    (hn : n = if c = 'x' then 2 else if c = 'u' then 4 else 0)
    (h : (if n > 0 then hexChar n tail else none) = some e) :
    (c = 'x' ∧ n = 2 ∨ c = 'u' ∧ n = 4) ∧ hexChar n tail = some e := by
  by_cases hx : c = 'x'
  · have hn2 : n = 2 := by simp [hn, hx]
    subst hn2
    exact ⟨.inl ⟨hx, rfl⟩, by simpa using h⟩
  · by_cases hu : c = 'u'
    · have hn4 : n = 4 := by simp [hn, hu]
      subst hn4
      exact ⟨.inr ⟨hu, rfl⟩, by simpa using h⟩
    · have hn0 : n = 0 := by simp [hn, hx, hu]
      simp [hn0] at h

theorem hex_escape_none {c : Char} {tail : List Char} {n : Nat}
    (hn : n = if c = 'x' then 2 else if c = 'u' then 4 else 0)
    (h : (if n > 0 then hexChar n tail else none) = none) :
    (c = 'x' → hexChar 2 tail = none) ∧ (c = 'u' → hexChar 4 tail = none) := by
  constructor
  · rintro rfl
    simpa [hn] using h
  · rintro rfl
    simpa [hn] using h

/-- A string literal's body `raw`, starting at position `pos`, stands for `value`, and holds
the bad escapes `bad`, each at the position of its backslash with its raw text. -/
inductive LiteralBody : Nat → List Char → List Char → List (Nat × String) → Prop
  | nil (pos : Nat) : LiteralBody pos [] [] []
  /-- A character that is no backslash, quote or line end stands for itself. -/
  | plain {pos : Nat} {c : Char} {raw value : List Char} {bad : List (Nat × String)} :
      c ≠ '\\' → c ≠ '"' → c ≠ '\n' → LiteralBody (pos + 1) raw value bad →
      LiteralBody pos (c :: raw) (c :: value) bad
  /-- A backslash and an escape form stand for the form's character. -/
  | escape {pos : Nat} {form raw value : List Char} {e : Char} {bad : List (Nat × String)} :
      escapeValue form = some e → LiteralBody (pos + 1 + form.length) raw value bad →
      LiteralBody pos ('\\' :: form ++ raw) (e :: value) bad
  /-- A backslash before anything that starts no escape form stays, with the character after
  it, and is a bad escape. -/
  | bad {pos : Nat} {c : Char} {raw value : List Char} {bad : List (Nat × String)} :
      c ≠ '\n' → (∀ form, form <+: c :: raw → escapeValue form = none) →
      LiteralBody (pos + 2) raw value bad →
      LiteralBody pos ('\\' :: c :: raw) ('\\' :: c :: value)
        ((pos, String.ofList ['\\', c]) :: bad)
  /-- A backslash that ends the body stays alone, and is a bad escape. -/
  | trailing (pos : Nat) : LiteralBody pos ['\\'] ['\\'] [(pos, "\\")]

/-- Where the reader stopped after the body `raw`, with `rest` following it: at a closing
quote, which it read too, or before a line end or the end of the text. -/
def Quoted.Stops (q : Quoted) (raw rest : List Char) : Prop :=
  (q.closed = true ∧ q.width = raw.length + 1 ∧ rest.head? = some '"') ∨
  (q.closed = false ∧ q.width = raw.length ∧ ∀ c ∈ rest.head?, c = '\n')

theorem Quoted.Stops.extend {q q' : Quoted} {raw rest : List Char} (pre : List Char)
    (h : q.Stops raw rest) (hc : q'.closed = q.closed) (hw : q'.width = q.width + pre.length) :
    q'.Stops (pre ++ raw) rest := by
  rcases h with ⟨hcl, hwd, hr⟩ | ⟨hcl, hwd, hr⟩
  · exact .inl ⟨hc.trans hcl, by rw [hw, hwd, List.length_append]; omega, hr⟩
  · exact .inr ⟨hc.trans hcl, by rw [hw, hwd, List.length_append]; omega, hr⟩

/-- The reader reads a body and stops where `Quoted.Stops` says, giving the value and bad
escapes of that body. -/
theorem quoted_reads (dist : Nat) (cs : List Char) :
    ∃ raw rest, cs = raw ++ rest ∧
      LiteralBody dist raw (quoted dist cs).value (quoted dist cs).badEscapes ∧
      (quoted dist cs).Stops raw rest := by
  induction dist, cs using quoted.induct with
  | case1 dist =>
    exact ⟨[], [], rfl, by rw [quoted]; exact .nil dist, by simp [quoted, Quoted.Stops]⟩
  | case2 dist tail =>
    exact ⟨[], '\n' :: tail, rfl, by rw [quoted]; exact .nil dist,
      by simp [quoted, Quoted.Stops]⟩
  | case3 dist tail =>
    exact ⟨[], '"' :: tail, rfl, by rw [quoted]; exact .nil dist,
      by simp [quoted, Quoted.Stops]⟩
  | case4 dist =>
    exact ⟨['\\'], [], rfl, by rw [quoted]; exact .trailing dist,
      by simp [quoted, Quoted.Stops]⟩
  | case5 dist c tail e hs ih =>
    obtain ⟨raw, rest, rfl, hb, hst⟩ := ih
    have hq : quoted dist ('\\' :: c :: (raw ++ rest)) =
        { quoted (dist + 2) (raw ++ rest) with
          value := e :: (quoted (dist + 2) (raw ++ rest)).value,
          width := (quoted (dist + 2) (raw ++ rest)).width + 2 } := by
      rw [quoted, hs]
    refine ⟨'\\' :: c :: raw, rest, rfl, ?_, ?_⟩
    · rw [hq]
      exact @LiteralBody.escape dist [c] raw _ e _ (by rw [escapeValue_single, hs]) hb
    · rw [hq]; exact hst.extend ['\\', c] rfl rfl
  | case6 dist c tail hs digits e he ih =>
    obtain ⟨raw, rest, hsplit, hb, hst⟩ := ih
    -- the digit count is a local definition of the reader; keep only its value
    have hdig : digits = if c = 'x' then 2 else if c = 'u' then 4 else 0 := rfl
    clear_value digits
    simp only [dite_eq_ite] at he
    obtain ⟨hc, hd⟩ := hex_escape_some hdig he
    have hq : quoted dist ('\\' :: c :: tail) =
        { quoted (dist + 2 + digits) (tail.drop digits) with
          value := e :: (quoted (dist + 2 + digits) (tail.drop digits)).value,
          width := (quoted (dist + 2 + digits) (tail.drop digits)).width + 2 + digits } := by
      rw [quoted, hs]
      simp only [← hdig, he]
    have hlen : (tail.take digits).length = digits := by simp [hexChar_length hd]
    refine ⟨'\\' :: (c :: tail.take digits) ++ raw, rest, ?_, ?_, ?_⟩
    · simp only [List.cons_append, List.append_assoc, ← hsplit, List.take_append_drop]
    · rw [hq]
      refine LiteralBody.escape (escapeValue_hex hc hd) ?_
      rw [List.length_cons, hlen, show dist + 1 + (digits + 1) = dist + 2 + digits by omega]
      exact hb
    · rw [hq]
      exact hst.extend ('\\' :: c :: tail.take digits) rfl (by simp [hlen]; omega)
  | case7 dist tail hs digits hh ih =>
    have hq : quoted dist ('\\' :: '\n' :: tail) = ⟨['\\'], 1, false, [(dist, "\\")]⟩ := by
      rw [quoted, hs]
      simp [quoted]
    refine ⟨['\\'], '\n' :: tail, rfl, ?_, ?_⟩ <;> rw [hq]
    · exact .trailing dist
    · exact .inr ⟨rfl, rfl, by simp⟩
  | case8 dist c tail hs digits hh hn ih =>
    obtain ⟨raw, rest, rfl, hb, hst⟩ := ih
    have hdig : digits = if c = 'x' then 2 else if c = 'u' then 4 else 0 := rfl
    clear_value digits
    simp only [dite_eq_ite] at hh
    have hq : quoted dist ('\\' :: c :: (raw ++ rest)) =
        { quoted (dist + 2) (raw ++ rest) with
          value := '\\' :: c :: (quoted (dist + 2) (raw ++ rest)).value,
          width := (quoted (dist + 2) (raw ++ rest)).width + 2,
          badEscapes := (dist, String.ofList ['\\', c]) ::
            (quoted (dist + 2) (raw ++ rest)).badEscapes } := by
      rw [quoted, hs]
      simp only [← hdig, hh, hn, if_false]
    obtain ⟨hx, hu⟩ := hex_escape_none hdig hh
    -- no escape form starts in the rest of the text, so none starts in the rest of the body
    have hbad : ∀ form, form <+: c :: raw → escapeValue form = none := fun form hf =>
      escapeValue_eq_none hs hx hu (hf.trans ⟨rest, by simp⟩)
    refine ⟨'\\' :: c :: raw, rest, rfl, ?_, ?_⟩ <;> rw [hq]
    · exact .bad hn hbad hb
    · exact hst.extend ['\\', c] rfl rfl
  | case9 dist c rest hn hq hb1 hb2 ih =>
    have hc : c ≠ '\\' := by
      rintro rfl
      cases rest with
      | nil => exact hb1 rfl rfl
      | cons d tail => exact hb2 d tail rfl rfl
    obtain ⟨raw, rest', rfl, hb, hst⟩ := ih
    have hq' : quoted dist (c :: (raw ++ rest')) =
        { quoted (dist + 1) (raw ++ rest') with
          value := c :: (quoted (dist + 1) (raw ++ rest')).value,
          width := (quoted (dist + 1) (raw ++ rest')).width + 1 } := by
      rw [quoted.eq_6 dist c _ hn hq hb1 hb2]
    refine ⟨c :: raw, rest', rfl, ?_, ?_⟩ <;> rw [hq']
    · exact .plain hc hq hn hb
    · exact hst.extend [c] rfl rfl

end Jianpu.Token
