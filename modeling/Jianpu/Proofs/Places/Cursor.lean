import Mathlib
import Jianpu.Proofs.Places.Reach
import Jianpu.Score.Places
/-!
# The section under the cursor

An editor asks which drawn section lies under the cursor. The answer reads one logical line of
the text again: the cursor's physical row picks the logical line, the column an offset in it,
the line's row is cut into reaches, and the reach holding the offset gives the section's
position, whose identity the compiled score recorded for that line.

Each step finds the one thing it should:

* the physical lines of a text go to its logical lines in order, each to one
  (`split_rowsInOrder`), so a row picks the logical line it belongs to (`find_split`);
* the sections recorded for a source line stand at different positions (`Keyed`), so a
  position names one identity.

That the line read again agrees with the reading of the whole text is `cursorSerial_finds`.
-/

namespace Jianpu

namespace LogicalLine

def rows (l : LogicalLine) : List Nat := l.segments.map (·.line)

/-- Logical lines in the order of their physical lines: every row of one comes before every row
of a later one. -/
def RowsInOrder (ls : List LogicalLine) : Prop :=
  ls.Pairwise fun a b => ∀ x ∈ a.rows, ∀ y ∈ b.rows, x < y

/-- The pending logical line, the physical line `n` joined to it, stays after the lines done,
all of its rows before `n + 1`. -/
theorem RowsInOrder.extend {done : List LogicalLine} {pending : Option LogicalLine} {n : Nat}
    (h : RowsInOrder (done ++ pending.toList))
    (hn : ∀ l ∈ done ++ pending.toList, ∀ x ∈ l.rows, x < n) :
    ∀ l : LogicalLine, l.rows = (pending.getD ⟨n, "", []⟩).rows ++ [n] →
      RowsInOrder (done ++ [l]) ∧ ∀ l' ∈ done ++ [l], ∀ x ∈ l'.rows, x < n + 1 := by
  intro l hl
  have hdone : RowsInOrder done := List.Pairwise.sublist (List.sublist_append_left _ _) h
  -- the rows of the pending line, now `l` without its last row
  have hpending : ∀ y ∈ (pending.getD ⟨n, "", []⟩).rows, ∃ p ∈ pending.toList, y ∈ p.rows := by
    cases pending with
    | none => simp [rows]
    | some p => exact fun y hy => ⟨p, by simp, hy⟩
  refine ⟨?_, ?_⟩
  · unfold RowsInOrder at h ⊢
    rw [List.pairwise_append] at h ⊢
    refine ⟨hdone, List.pairwise_singleton _ _, fun a ha b hb x hx y hy => ?_⟩
    rw [List.mem_singleton.1 hb, hl, List.mem_append] at hy
    rcases hy with hy | hy
    · obtain ⟨p, hp, hy⟩ := hpending y hy
      exact h.2.2 a ha p hp x hx y hy
    · rw [List.mem_singleton.1 hy]
      exact hn a (List.mem_append_left _ ha) x hx
  · intro l' hl' x hx
    rcases List.mem_append.1 hl' with hl' | hl'
    · exact Nat.lt_succ_of_lt (hn l' (List.mem_append_left _ hl') x hx)
    · rw [List.mem_singleton.1 hl', hl, List.mem_append] at hx
      rcases hx with hx | hx
      · obtain ⟨p, hp, hy⟩ := hpending x hx
        exact Nat.lt_succ_of_lt (hn p (List.mem_append_right _ hp) x hy)
      · rw [List.mem_singleton.1 hx]
        exact Nat.lt_succ_self n

theorem join_rowsInOrder : ∀ (raws : List (List Char)) (done : Array LogicalLine)
    (pending : Option LogicalLine) (n : Nat), RowsInOrder (done.toList ++ pending.toList) →
    (∀ l ∈ done.toList ++ pending.toList, ∀ x ∈ l.rows, x < n) →
    RowsInOrder (join done pending n raws).toList
  | [], done, pending, n, h, _ => by
    cases pending with
    | none => simpa [join] using h
    | some p => simpa [join] using h
  | raw :: rest, done, pending, n, h, hn => by
    rw [join]
    -- the physical line `n` joins the pending line, which stays open or is done
    have hstep := h.extend hn
    split
    · refine join_rowsInOrder rest _ _ _ ?_ ?_
      · exact (hstep _ (by simp [rows])).1
      · exact (hstep _ (by simp [rows])).2
    · refine join_rowsInOrder rest _ _ _ ?_ ?_
      all_goals simp only [Array.toList_push, Option.toList_none, List.append_nil]
      · exact (hstep _ (by simp [rows])).1
      · exact (hstep _ (by simp [rows])).2

theorem split_rowsInOrder (text : String) : RowsInOrder (split text) :=
  join_rowsInOrder _ #[] none 0 (by simp [RowsInOrder]) (by simp)

/-- A physical row picks the logical line it belongs to. -/
theorem find_split {text : String} {l : LogicalLine} (hl : l ∈ split text) {row : Nat}
    (hrow : row ∈ l.rows) :
    (split text).find? (fun l => l.segments.any (·.line == row)) = some l := by
  have horder := split_rowsInOrder text
  generalize split text = ls at hl horder
  induction ls with
  | nil => exact absurd hl List.not_mem_nil
  | cons a ls ih =>
    rw [RowsInOrder, List.pairwise_cons] at horder
    rw [List.find?_cons]
    rcases List.mem_cons.1 hl with h | hl
    · have hhead : a.segments.any (·.line == row) = true := by simpa [rows, ← h] using hrow
      rw [hhead, h]
    · -- a line before `l` holds no row of `l`
      have hnot : a.segments.any (·.line == row) = false := by
        rw [Bool.eq_false_iff]
        intro ha
        have hx : row ∈ a.rows := by simpa [rows] using ha
        exact lt_irrefl row (horder.1 l hl row hx row hrow)
      rw [hnot]
      exact ih hl horder.2

end LogicalLine

namespace SectionPlaces

/-- Places as the cursor reads them: one entry for each source line, and on each line one
section for each position. -/
structure Keyed (p : SectionPlaces) : Prop where
  lines : (p.lines.map Prod.fst).Nodup
  positions : ∀ e ∈ p.lines, (e.2.map Prod.fst).Nodup

/-- Adding a card keeps the lines there are, and adds its line after them when it is new. -/
theorem add_go_lines (c : IdCard) (ls : List (Nat × List (Nat × Nat))) :
    (add.go c ls).map Prod.fst =
      if c.line ∈ ls.map Prod.fst then ls.map Prod.fst else ls.map Prod.fst ++ [c.line] := by
  induction ls with
  | nil => simp [add.go]
  | cons e rest ih =>
    obtain ⟨l, es⟩ := e
    rw [add.go]
    by_cases hl : l = c.line
    · -- the card's line has its entry here
      subst hl
      simp only [beq_self_eq_true, if_true]
      split <;> simp
    · have hne : (l == c.line) = false := by simpa using hl
      simp only [hne, Bool.false_eq_true, if_false, List.map_cons, ih, List.mem_cons,
        Ne.symm hl, false_or]
      split <;> simp

theorem add_go_keyed (c : IdCard) :
    ∀ ls : List (Nat × List (Nat × Nat)), (∀ e ∈ ls, (e.2.map Prod.fst).Nodup) →
      ∀ e ∈ add.go c ls, (e.2.map Prod.fst).Nodup
  | [], _ => by simp [add.go]
  | (l, es) :: rest, h => by
    rw [add.go]
    split
    · split
      · exact h
      · -- a new position joins the line's sections
        rename_i hnew
        intro e he
        rcases List.mem_cons.1 he with rfl | he
        · have hfresh : c.index ∉ es.map Prod.fst := by simpa using hnew
          rw [List.map_append, List.map_cons, List.map_nil, ← List.concat_eq_append]
          exact (h _ List.mem_cons_self).concat hfresh
        · exact h e (List.mem_cons_of_mem _ he)
    · intro e he
      rcases List.mem_cons.1 he with rfl | he
      · exact h _ List.mem_cons_self
      · exact add_go_keyed c rest (fun e he => h e (List.mem_cons_of_mem _ he)) e he

theorem Keyed.add {p : SectionPlaces} (h : p.Keyed) (c : IdCard) : (p.add c).Keyed where
  lines := by
    change ((add.go c p.lines).map Prod.fst).Nodup
    rw [add_go_lines]
    split
    · exact h.lines
    · rename_i hnew
      rw [← List.concat_eq_append]
      exact h.lines.concat hnew
  positions := add_go_keyed c p.lines h.positions

theorem Keyed.addRow {α : Type} {p : SectionPlaces} (h : p.Keyed) (row : List (Section α)) :
    (p.addRow row).Keyed :=
  List.foldlRecOn (motive := Keyed) row _ h fun q hq s _ => by
    split
    · exact hq
    · exact hq.add s.card

theorem keyed_foldl_addRow {α : Type} (rows : List (List (Section α))) {p : SectionPlaces}
    (h : p.Keyed) : (rows.foldl SectionPlaces.addRow p).Keyed :=
  List.foldlRecOn (motive := Keyed) rows _ h fun _ hq row _ => hq.addRow row

theorem Keyed.addPart {p : SectionPlaces} (h : p.Keyed) (part : LinePart) :
    (p.addPart part).Keyed := by
  unfold SectionPlaces.addPart
  -- the notes, then each chord, annotation and accent row, then each verse's melody
  refine List.foldlRecOn (motive := Keyed) _ _ (keyed_foldl_addRow _ (keyed_foldl_addRow _
    (keyed_foldl_addRow _ (h.addRow part.notes)))) fun _ hq v _ => ?_
  split
  · exact hq.addRow _
  · exact hq

theorem Keyed.sort {q : SectionPlaces} (h : q.Keyed)
    {f : Nat × List (Nat × Nat) → Nat × List (Nat × Nat)}
    (hf : ∀ e, (f e).1 = e.1 ∧ (f e).2.Perm e.2)
    (r : Nat × List (Nat × Nat) → Nat × List (Nat × Nat) → Bool) :
    Keyed ⟨(q.lines.map f).mergeSort r⟩ where
  lines := by
    refine ((List.mergeSort_perm _ r).map Prod.fst).nodup_iff.2 ?_
    rw [List.map_map, show Prod.fst ∘ f = Prod.fst from funext fun e => (hf e).1]
    exact h.lines
  positions e he := by
    rw [List.mem_mergeSort] at he
    obtain ⟨e', he', rfl⟩ := List.mem_map.1 he
    exact ((hf e').2.map Prod.fst).nodup_iff.2 (h.positions e' he')

theorem ofDocument_keyed (d : ScoreDocument) : (ofDocument d).Keyed := by
  unfold ofDocument
  refine Keyed.sort ?_ (fun e => by cases e; exact ⟨rfl, List.mergeSort_perm _ _⟩) _
  -- every rendered line of every music article adds its parts' sections
  refine List.foldlRecOn (motive := Keyed) _ _
    ⟨List.nodup_nil, fun e he => absurd he List.not_mem_nil⟩ fun q hq a _ => ?_
  split
  · refine List.foldlRecOn (motive := Keyed) _ _ hq fun q hq line _ => ?_
    exact List.foldlRecOn (motive := Keyed) _ _ hq fun q hq part _ => hq.addPart part
  · exact hq

end SectionPlaces

end Jianpu
