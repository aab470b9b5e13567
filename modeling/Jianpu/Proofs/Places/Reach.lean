import Mathlib
import Jianpu.Content.Sections
/-!
# Sections reach apart

A section of a row reaches from the end of the barline before it to the start of the barline
after it, or to the row's edge where there is none (`sectionReach`). When the pieces of the row
stand in order and every barline symbol covers a character (`PiecesInOrder`), the barline runs
come in order and each covers a character (`barlineRuns_inOrder`). The run between two
sections lies between their reaches, so the reaches come in increasing order and no two share
an offset (`sectionReach_pairwise`); the reach that holds an offset is the first one that does
(`findIdx_sectionReach`).
-/

namespace Jianpu

/-- Pieces as a row holds them: each after the one before, none ending before it starts, and
every barline symbol at least one character wide. -/
structure PiecesInOrder (items : List Piece) : Prop where
  ordered : items.Pairwise fun p q => p.span.stop ≤ q.span.start
  proper : ∀ p ∈ items, p.span.start ≤ p.span.stop
  barlines : ∀ p ∈ items, p.isBarlineSymbol = true → p.span.start < p.span.stop

namespace PiecesInOrder

variable {items : List Piece}

theorem stop_le_start (h : PiecesInOrder items) {a b : Nat} (hab : a < b) (hb : b < items.length) :
    items[a].span.stop ≤ items[b].span.start :=
  List.pairwise_iff_getElem.1 h.ordered a b (by omega) hb hab

theorem start_le_start (h : PiecesInOrder items) {a b : Nat} (hab : a ≤ b) (hb : b < items.length) :
    items[a].span.start ≤ items[b].span.start := by
  rcases Nat.lt_or_eq_of_le hab with hab | rfl
  · exact (h.proper _ (List.getElem_mem _)).trans (h.stop_le_start hab hb)
  · exact le_rfl

theorem stop_le_stop (h : PiecesInOrder items) {a b : Nat} (hab : a ≤ b) (hb : b < items.length) :
    items[a].span.stop ≤ items[b].span.stop := by
  rcases Nat.lt_or_eq_of_le hab with hab | rfl
  · exact (h.stop_le_start hab hb).trans (h.proper _ (List.getElem_mem _))
  · exact le_rfl

theorem edge_le (h : PiecesInOrder items) {k : Nat} (hk : k < items.length) :
    (edges items.toArray).1 ≤ items[k].span.start := by
  have h0 : 0 < items.length := by omega
  simp only [edges, List.getElem?_toArray, List.getElem?_eq_getElem h0, Option.map_some,
    Option.getD_some]
  exact h.start_le_start (Nat.zero_le k) hk

end PiecesInOrder

/-! ## Barline runs -/

theorem le_barlineEnd (items : Array Piece) (e : Nat) : e ≤ barlineEnd items e := by
  fun_induction barlineEnd items e <;> omega

theorem barlineEnd_le (items : Array Piece) (e : Nat) (he : e ≤ items.size) :
    barlineEnd items e ≤ items.size := by
  fun_induction barlineEnd items e <;> omega

/-- The barline runs found before piece `i`: each covers a character and starts no earlier
than the row, they come in order, and each ends before every piece from `i` on. -/
structure RunsBefore (items : List Piece) (i : Nat) (runs : List BarlineRun) : Prop where
  proper : ∀ r ∈ runs, r.span.start < r.span.stop
  edge : ∀ r ∈ runs, (edges items.toArray).1 ≤ r.span.start
  ordered : runs.Pairwise fun r s => r.span.stop ≤ s.span.start
  before : ∀ r ∈ runs, ∀ k (hk : k < items.length), i ≤ k → r.span.stop ≤ items[k].span.start

namespace RunsBefore

variable {items : List Piece} {i : Nat} {runs : List BarlineRun}

theorem nil (items : List Piece) (i : Nat) : RunsBefore items i [] :=
  ⟨by simp, by simp, List.Pairwise.nil, by simp⟩

theorem mono (h : RunsBefore items i runs) {i' : Nat} (hle : i ≤ i') : RunsBefore items i' runs :=
  { h with before := fun r hr k hk hik => h.before r hr k hk (hle.trans hik) }

/-- A run from the barline symbol at `i` to the piece `s` keeps the runs in order, up to any
piece after `s`. -/
theorem push (hin : PiecesInOrder items) (h : RunsBefore items i runs) (x : BarlineRun)
    {s i' : Nat} (his : i ≤ s) (hs : s < items.length) (hbar : items[i].isBarlineSymbol = true)
    (hx : x.span = items[i].span.join items[s].span) (hsi : s < i') :
    RunsBefore items i' (runs ++ [x]) := by
  have hi : i < items.length := by omega
  have hwide := hin.barlines _ (List.getElem_mem hi) hbar
  -- the run starts at the barline symbol and ends with the piece `s`
  have hstart : x.span.start = items[i].span.start := by
    rw [hx, Span.join]
    exact min_eq_left (hin.start_le_start his hs)
  have hstop : x.span.stop = items[s].span.stop := by
    rw [hx, Span.join]
    exact max_eq_right (hin.stop_le_stop his hs)
  refine ⟨?_, ?_, ?_, ?_⟩
  · simp only [List.mem_append, List.mem_singleton]
    rintro r (hr | rfl)
    · exact h.proper r hr
    · rw [hstart, hstop]
      exact lt_of_lt_of_le hwide (hin.stop_le_stop his hs)
  · simp only [List.mem_append, List.mem_singleton]
    rintro r (hr | rfl)
    · exact h.edge r hr
    · rw [hstart]
      exact hin.edge_le hi
  · rw [List.pairwise_append]
    refine ⟨h.ordered, List.pairwise_singleton _ _, fun r hr y hy => ?_⟩
    rw [List.mem_singleton.1 hy, hstart]
    exact h.before r hr i hi le_rfl
  · simp only [List.mem_append, List.mem_singleton]
    rintro r (hr | rfl) k hk hik
    · exact h.before r hr k hk (by omega)
    · rw [hstop]
      exact hin.stop_le_start (by omega) hk

end RunsBefore

/-- The runs found from piece `i` on extend those found before it in order. -/
theorem runsBefore_barlineRunsFrom {items : List Piece} (hin : PiecesInOrder items) (i : Nat)
    (runs : Array BarlineRun) (h : RunsBefore items i runs.toList) :
    ∃ i', RunsBefore items i' (barlineRunsFrom items.toArray i runs).toList := by
  fun_induction barlineRunsFrom items.toArray i runs with
  | case1 i runs hi hnot ih => exact ih (h.mono (Nat.le_succ i))
  | case2 i runs hi hbar stop last runEnd glyph own cursor post cursor' taken pre run ih =>
    have hi' : i < items.length := by simpa using hi
    -- the run covers the touching symbols from `i` up to `stop`, and reading goes on after it
    have hstart : i + 1 ≤ stop := le_barlineEnd _ _
    have hend : stop ≤ items.length := by
      simpa using barlineEnd_le items.toArray (i + 1) (by simpa using hi)
    have hlast : last = items[stop - 1] := by
      simp [last, List.getElem?_eq_getElem (by omega : stop - 1 < items.length)]
    have hcursor : stop ≤ cursor' := by
      simp only [cursor', cursor]
      split <;> split <;> omega
    refine ih ?_
    rw [Array.toList_push]
    exact h.push hin run (s := stop - 1) (by omega) (by omega) (by simpa using hbar)
      (by simp [run, hlast]) (by omega)
  | case3 i runs hi => exact ⟨i, h⟩

theorem barlineRuns_inOrder {items : List Piece} (hin : PiecesInOrder items) :
    ∃ i, RunsBefore items i (barlineRuns items.toArray) :=
  runsBefore_barlineRunsFrom hin 0 #[] (RunsBefore.nil items 0)

/-! ## Slots and reaches -/

/-- The barlines around a row's sections: perhaps an open edge, the runs in turn, perhaps
another open edge, and one section fewer than slots, or no section at all. -/
theorem sectionSlots_shape (runs : List BarlineRun) (len : Nat) :
    ∃ pre post : List (Option BarlineRun), (∀ x ∈ pre, x = none) ∧ pre.length ≤ 1 ∧
      (sectionSlots runs len).1 = pre ++ runs.map some ++ post ∧
      (sectionSlots runs len).2.length ≤ pre.length + runs.length := by
  cases runs with
  | nil =>
    unfold sectionSlots
    simp only [List.head?_nil, List.getLast?_nil]
    split
    · exact ⟨[none], [none], by simp, by simp, rfl, by simp⟩
    · exact ⟨[], [], by simp, by simp, rfl, by simp⟩
  | cons first rest =>
    have hlast := List.getLast?_eq_some_getLast (List.cons_ne_nil first rest)
    unfold sectionSlots
    simp only [List.head?_cons, hlast]
    by_cases ha : first.attrStart > 0 <;>
      by_cases hb : ((first :: rest).getLast (List.cons_ne_nil _ _)).attrEnd < len
    · exact ⟨[none], [none], by simp, by simp, by simp [ha, hb], by simp [ha, hb]⟩
    · exact ⟨[none], [], by simp, by simp, by simp [ha, hb], by simp [ha, hb]⟩
    · exact ⟨[], [none], by simp, by simp, by simp [ha, hb], by simp [ha, hb]⟩
    · exact ⟨[], [], by simp, by simp, by simp [ha, hb], by simp [ha, hb]⟩

/-- Every section but the first has a barline before it, one after the slot before it. -/
theorem sectionSlots_inner (runs : List BarlineRun) (len : Nat)
    (hruns : runs.Pairwise fun r s => r.span.stop ≤ s.span.start) {k : Nat}
    (hk : k + 1 < (sectionSlots runs len).2.length) :
    ∃ r ∈ runs, (sectionSlots runs len).1[k + 1]? = some (some r) ∧
      ((sectionSlots runs len).1[k]? = some none ∨
        ∃ r', (sectionSlots runs len).1[k]? = some (some r') ∧ r'.span.stop ≤ r.span.start) := by
  obtain ⟨pre, post, hnone, hpre, hslots, hspans⟩ := sectionSlots_shape runs len
  rw [hslots]
  have hr : k + 1 - pre.length < runs.length := by omega
  refine ⟨runs[k + 1 - pre.length], List.getElem_mem hr, ?_, ?_⟩
  · rw [List.getElem?_append_left (by simp; omega), List.getElem?_append_right (by omega)]
    simp [hr]
  · rw [List.getElem?_append_left (by simp; omega)]
    by_cases hkp : k < pre.length
    · left
      rw [List.getElem?_append_left hkp, List.getElem?_eq_getElem hkp, hnone _ (List.getElem_mem hkp)]
    · right
      have hr' : k - pre.length < runs.length := by omega
      refine ⟨runs[k - pre.length], ?_, ?_⟩
      · rw [List.getElem?_append_right (by omega)]
        simp [hr']
      · exact List.pairwise_iff_getElem.1 hruns _ _ hr' hr (by omega)

theorem sectionReach_proper (items : List Piece) : ∀ r ∈ sectionReach items, r.start ≤ r.stop := by
  unfold sectionReach
  simp only [List.mem_map, List.mem_range]
  rintro r ⟨k, -, rfl⟩
  exact le_max_right _ _

/-- The barline after a section lies between its reach and the next one's. -/
theorem sectionReach_step {items : List Piece} (hin : PiecesInOrder items) {k : Nat}
    (hk : k + 1 < (sectionReach items).length) :
    (sectionReach items)[k].stop < (sectionReach items)[k + 1].start := by
  obtain ⟨i, hruns⟩ := barlineRuns_inOrder hin
  have hk' : k + 1 < (sectionSlots (barlineRuns items.toArray) items.toArray.size).2.length := by
    simpa [sectionReach] using hk
  obtain ⟨r, hr, hnext, hbefore⟩ := sectionSlots_inner _ _ hruns.ordered hk'
  simp only [sectionReach, List.getElem_map, List.getElem_range, hnext, Option.join_some,
    Option.map_some, Option.getD_some]
  have hwide := hruns.proper r hr
  -- the section before starts at the row's edge or after the barline before this one
  rcases hbefore with hnone | ⟨r', hr', hle⟩
  · simp only [hnone, Option.join_some, Option.map_none, Option.getD_none]
    have := hruns.edge r hr
    omega
  · simp only [hr', Option.join_some, Option.map_some, Option.getD_some]
    omega

theorem sectionReach_pairwise {items : List Piece} (hin : PiecesInOrder items) :
    (sectionReach items).Pairwise fun r s => r.stop < s.start := by
  rw [List.pairwise_iff_getElem]
  intro a b ha hb hab
  -- from one reach to the next, each ends before the next starts
  induction b, hab using Nat.le_induction with
  | base => exact sectionReach_step hin hb
  | succ b hab ih =>
    have hprop := sectionReach_proper items _ (List.getElem_mem (by omega : b < _))
    have := ih (by omega)
    have := sectionReach_step hin hb
    omega

theorem findIdx_sectionReach {items : List Piece} (hin : PiecesInOrder items) {k offset : Nat}
    (hk : k < (sectionReach items).length)
    (hoff : (sectionReach items)[k].start ≤ offset ∧ offset ≤ (sectionReach items)[k].stop) :
    (sectionReach items).findIdx? (fun r => r.start ≤ offset && offset ≤ r.stop) = some k := by
  rw [List.findIdx?_eq_some_iff_getElem]
  refine ⟨hk, by simpa using hoff, fun j hj => ?_⟩
  have := List.pairwise_iff_getElem.1 (sectionReach_pairwise hin) j k (by omega) hk hj
  simp only [Bool.and_eq_true, decide_eq_true_eq, not_and, not_le]
  intro _
  omega

end Jianpu
