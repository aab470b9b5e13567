import Mathlib
import Jianpu.Text.Split
/-!
# Cutting texts, as list operations

The small cuts of `Jianpu.Text` stated as what they do to the characters of a text:

* `splitOnceChars_cons` — the first character is the cut, or stays before the cut of the rest;
  hence `splitOnce_eq_some_iff`: a cut at `c` leaves the characters before its first
  occurrence and those after it, and `splitOnce_eq_none_iff`: there is none when no `c` occurs;
* `dropPrefixChars_eq_some_iff`, `dropSuffix_eq_some_iff` — a start or an end is dropped
  exactly when the text has it;
* `splitOnChars_eq_splitOn` — the pieces between occurrences of `c` are those of
  `List.splitOn`, so `splitOn_intercalate` reads back pieces joined by `c`.
-/
namespace Jianpu.Text

theorem splitOnceChars_nil (c : Char) : splitOnceChars [] c = none := rfl

theorem splitOnceChars_cons (x : Char) (xs : List Char) (c : Char) :
    splitOnceChars (x :: xs) c =
      if x = c then some ([], xs) else (splitOnceChars xs c).map fun p => (x :: p.1, p.2) := by
  unfold splitOnceChars
  rw [List.span_eq_takeWhile_dropWhile, List.span_eq_takeWhile_dropWhile]
  by_cases hx : x = c
  · simp [hx]
  · simp only [List.takeWhile_cons, List.dropWhile_cons, hx, bne_iff_ne, ne_eq,
      not_false_eq_true, if_true, if_false]
    generalize List.dropWhile _ xs = rest
    cases rest <;> rfl

/-- A cut at `c` falls on its first occurrence. -/
theorem splitOnceChars_eq_some_iff {cs a b : List Char} {c : Char} :
    splitOnceChars cs c = some (a, b) ↔ cs = a ++ c :: b ∧ c ∉ a := by
  induction cs generalizing a with
  | nil => simp [splitOnceChars_nil]
  | cons x xs ih =>
    rw [splitOnceChars_cons]
    by_cases hx : x = c
    · subst hx
      rw [if_pos rfl]
      cases a with
      | nil => simp
      | cons y ys =>
        -- a cut after the first character would pass over a `c`
        simp only [Option.some.injEq, Prod.mk.injEq, reduceCtorEq, false_and, List.cons_append,
          List.cons.injEq, false_iff, not_and]
        rintro ⟨rfl, -⟩ hx
        exact hx List.mem_cons_self
    · rw [if_neg hx, Option.map_eq_some_iff]
      constructor
      · rintro ⟨⟨a', b'⟩, hs, heq⟩
        simp only [Prod.mk.injEq] at heq
        obtain ⟨rfl, rfl⟩ := heq
        obtain ⟨rfl, ha⟩ := ih.1 hs
        exact ⟨rfl, by simp [Ne.symm hx, ha]⟩
      · rintro ⟨hcs, hc⟩
        cases a with
        | nil => simp at hcs; exact absurd hcs.1 hx
        | cons y ys =>
          simp only [List.cons_append, List.cons.injEq] at hcs
          obtain ⟨rfl, rfl⟩ := hcs
          exact ⟨(ys, b), ih.2 ⟨rfl, fun h => hc (List.mem_cons_of_mem _ h)⟩, rfl⟩

theorem splitOnceChars_eq_none_iff {cs : List Char} {c : Char} :
    splitOnceChars cs c = none ↔ c ∉ cs := by
  induction cs with
  | nil => simp [splitOnceChars_nil]
  | cons x xs ih =>
    rw [splitOnceChars_cons]
    by_cases hx : x = c
    · subst hx
      simp
    · simp [hx, ih, Ne.symm hx]

theorem splitOnce_eq_some_iff {s a b : String} {c : Char} :
    splitOnce s c = some (a, b) ↔ s.toList = a.toList ++ c :: b.toList ∧ c ∉ a.toList := by
  rw [splitOnce, Option.map_eq_some_iff]
  constructor
  · rintro ⟨⟨a', b'⟩, hs, heq⟩
    simp only [Prod.mk.injEq] at heq
    obtain ⟨rfl, rfl⟩ := heq
    simpa using splitOnceChars_eq_some_iff.1 hs
  · intro h
    exact ⟨(a.toList, b.toList), splitOnceChars_eq_some_iff.2 h, by simp⟩

theorem splitOnce_eq_none_iff {s : String} {c : Char} : splitOnce s c = none ↔ c ∉ s.toList := by
  simp [splitOnce, splitOnceChars_eq_none_iff]

theorem dropPrefixChars_eq_some_iff {p cs r : List Char} :
    dropPrefixChars p cs = some r ↔ cs = p ++ r := by
  induction p generalizing cs with
  | nil => simp [dropPrefixChars, eq_comm]
  | cons x xs ih =>
    cases cs with
    | nil => simp [dropPrefixChars]
    | cons y ys =>
      by_cases hxy : x = y
      · subst hxy
        simp [dropPrefixChars, ih]
      · simp [dropPrefixChars, hxy, Ne.symm hxy]

theorem dropSuffix_eq_some_iff {s suf r : String} :
    dropSuffix s suf = some r ↔ s.toList = r.toList ++ suf.toList := by
  rw [dropSuffix, Option.map_eq_some_iff]
  constructor
  · rintro ⟨r', hr', rfl⟩
    rw [dropPrefixChars_eq_some_iff] at hr'
    rw [← List.reverse_reverse s.toList, hr']
    simp
  · intro h
    refine ⟨r.toList.reverse, dropPrefixChars_eq_some_iff.2 (by simp [h]), by simp⟩

theorem splitOnChars_eq_splitOn (cs : List Char) (c : Char) : splitOnChars cs c = cs.splitOn c := by
  induction cs with
  | nil => rfl
  | cons d cs ih =>
    unfold splitOnChars at ih ⊢
    rw [List.foldr_cons, ih]
    obtain ⟨l, ls, h⟩ : ∃ l ls, cs.splitOn c = l :: ls :=
      List.exists_cons_of_ne_nil (List.splitOnP_ne_nil _ _)
    rw [h, List.splitOn, List.splitOnP_cons_eq_if_modifyHead, ← List.splitOn, h]
    by_cases hd : d = c <;> simp [hd]

theorem splitOn_intercalate {ss : List String} {c : Char} (h : ∀ s ∈ ss, c ∉ s.toList)
    (hne : ss ≠ []) : splitOn ((String.singleton c).intercalate ss) c = ss := by
  have hpieces : ∀ l ∈ ss.map String.toList, c ∉ l := by
    simpa using h
  rw [splitOn, String.toList_intercalate, String.toList_singleton, splitOnChars_eq_splitOn,
    List.splitOn_intercalate c hpieces (by simpa using hne)]
  simp

end Jianpu.Text
