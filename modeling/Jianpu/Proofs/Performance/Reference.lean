import Mathlib
import Jianpu.Proofs.Performance.Conflicts
/-!
# Walks that follow a reading written out beforehand

Some statements say that, on an article of a given shape, the performed walk plays exactly a
reading written out in advance: the textbook expansion of its repeats, or the two passes of a
`D.C.`. Their proofs share what this file provides.

* `find?_range_reverse` — the backward search of `segnoBefore` and `repeatStartBefore` finds
  the nearest column with the mark; `find?_range_reverse_getD` — it stops on a marked column or
  on the start.
* What playing a section does to the counters the walk reads: `play_jumps`, `play_damage`,
  `play_visited`; and what using a mark does: `markUsed_jumps_getD`, `markUsed_damage_getD`.
* `Tracks ref rest w` — the walk has played the reading `ref` but for its end `rest`, on passes
  numbered 1, 2, 3, ..., and has not been cut short. Playing the section the reading asks for
  next keeps it (`Tracks.play`), and so does opening the next pass (`Tracks.jump`).
* `walk_conflicts_nil` — a walk whose passes have distinct numbers plays no section twice under
  one number.
-/

namespace Jianpu

/-- The nearest index at or before `k` that satisfies `p`, searched from `k` down, is `i` when `i`
satisfies it and nothing between them does. -/
theorem find?_range_reverse {p : Nat → Bool} {i k : Nat} (hik : i ≤ k) (hi : p i = true)
    (hgap : ∀ j, i < j → j ≤ k → p j = false) : (List.range (k + 1)).reverse.find? p = some i := by
  induction k with
  | zero =>
    obtain rfl : i = 0 := by omega
    simp [hi]
  | succ k ih =>
    rw [List.range_succ, List.reverse_append, List.reverse_singleton, List.singleton_append,
      List.find?_cons]
    by_cases hk : i = k + 1
    · subst hk
      simp [hi]
    · rw [hgap (k + 1) (by omega) (Nat.le_refl _)]
      exact ih (by omega) fun j h₁ h₂ => hgap j h₁ (by omega)

/-- The backward search from `k`, falling back to the start, stops at or before `k`, on an index
that satisfies `p` or on the start. -/
theorem find?_range_reverse_getD (p : Nat → Bool) (k : Nat) :
    ((List.range (k + 1)).reverse.find? p).getD 0 ≤ k ∧
      (((List.range (k + 1)).reverse.find? p).getD 0 = 0 ∨
        p (((List.range (k + 1)).reverse.find? p).getD 0) = true) := by
  cases h : (List.range (k + 1)).reverse.find? p with
  | none => simp
  | some i =>
    have hi := List.mem_range.1 (List.mem_reverse.1 (List.mem_of_find?_eq_some h))
    exact ⟨by simp only [Option.getD_some]; omega, .inr (List.find?_some h)⟩

/-- The first index below `m` that satisfies `p`, searched upwards, is `i` when `i` satisfies it
and nothing below it does. -/
theorem find?_range_eq {p : Nat → Bool} {i : Nat} (hi : p i = true) (hgap : ∀ j < i, p j = false) :
    ∀ {m : Nat}, i < m → (List.range m).find? p = some i
  | 0, h => absurd h (Nat.not_lt_zero _)
  | m + 1, h => by
    rw [List.range_succ, List.find?_append]
    rcases Nat.lt_succ_iff_lt_or_eq.1 h with h | rfl
    · rw [find?_range_eq hi hgap h]
      rfl
    · rw [List.find?_eq_none.2 fun j hj => by simpa using hgap j (List.mem_range.1 hj)]
      simp [hi]

namespace Performer

variable {pf : Performer} {t : Timeline} {flat : Bool}

/-! ## The counters a walk reads -/

@[simp] theorem tally_jumps (w : Walk) (k m : Nat) : (tally t w k m).jumps = w.jumps := by
  unfold tally
  split
  · split <;> rfl
  · rfl

@[simp] theorem tally_damage (w : Walk) (k m : Nat) : (tally t w k m).damage = w.damage := by
  unfold tally
  split
  · split <;> rfl
  · rfl

@[simp] theorem tally_visited (w : Walk) (k m : Nat) : (tally t w k m).visited = w.visited := by
  unfold tally
  split
  · split <;> rfl
  · rfl

@[simp] theorem visit_jumps (w : Walk) (k : Nat) (s : PlayedSection) :
    (visit t flat w k s).jumps = w.jumps := by
  unfold visit
  split
  · rfl
  · split <;> rfl

@[simp] theorem visit_damage (w : Walk) (k : Nat) (s : PlayedSection) :
    (visit t flat w k s).damage = w.damage := by
  unfold visit
  split
  · rfl
  · split <;> rfl

theorem visit_visited (w : Walk) (k : Nat) (s : PlayedSection) (i : Nat) :
    ((visit t flat w k s).visited[i]?).getD false =
      ((i == k && decide (k < w.visited.size)) || (w.visited[i]?).getD false) := by
  unfold visit
  split
  · rename_i hv
    by_cases hik : i = k
    · subst hik
      simp [hv]
    · simp [hik]
  · -- the column was not visited: it is marked now, whatever the section's voices say
    have hmark : ((w.markVisited k).visited[i]?).getD false =
        ((i == k && decide (k < w.visited.size)) || (w.visited[i]?).getD false) := by
      simp only [Walk.markVisited, Array.getElem?_setIfInBounds]
      by_cases hik : k = i
      · subst hik
        by_cases hk : k < w.visited.size <;> simp [hk]
      · simp [hik, Ne.symm hik]
    split <;> exact hmark

@[simp] theorem play_jumps (w : Walk) : (play pf t flat w).jumps = w.jumps := by
  simp [play, Walk.record, Walk.mapPasses]

@[simp] theorem play_damage (w : Walk) : (play pf t flat w).damage = w.damage := by
  simp [play, Walk.record, Walk.mapPasses]

@[simp] theorem play_usedAfter (w : Walk) (k : Nat) : (play pf t flat w).usedAfter k = w.usedAfter k := by
  simp [Walk.usedAfter]

theorem play_visited (w : Walk) (i : Nat) :
    ((play pf t flat w).visited[i]?).getD false =
      ((i == w.cursor && decide (w.cursor < w.visited.size)) || (w.visited[i]?).getD false) := by
  simp only [play, Walk.record, Walk.mapPasses]
  rw [visit_visited, tally_visited]

@[simp] theorem play_visited_size (w : Walk) : (play pf t flat w).visited.size = w.visited.size := by
  have hv : ∀ (v : Walk) k s, (visit t flat v k s).visited.size = v.visited.size := by
    intro v k s
    unfold visit
    split
    · rfl
    · split <;> simp [Walk.markVisited, Walk.raise]
  simp only [play, Walk.record, Walk.mapPasses]
  rw [hv, tally_visited]

theorem Follows.eq_follow {s : Separators} {w : Walk} {r : Turn} (h : Follows pf t flat s w r) :
    r = pf.follow t flat s w := by
  cases h <;> simp [follow, *]

theorem Prepared.eq_of_no_reset {s : Separators} {w w₁ : Walk} (h : Prepared pf flat s w w₁)
    (hreset : s.before.attrs.hasReset = false) : w = w₁ := by
  simpa [Prepared, hreset, eq_comm] using h

/-! ## What the barline after a section asks for -/

section Barline

variable {s : Separators} {w : Walk}

theorem closing_of_jump_none (hjump : s.after.attrs.jump = none) (w : Walk) :
    closing t false s w = after.rest t s w := by
  simp [closing, after, hjump]

theorem rest_of_not_end (h : s.after.barline.isRepeatEnd = false) :
    after.rest t s w = if s.after.barline.isTerminal then (.stop, w) else (.next, w) := by
  simp [after.rest, h]

theorem after_fine (hjump : s.after.attrs.jump = some .fine) :
    after t w s = if w.usedAfter w.cursor then (.stop, w) else after.rest t s w := by
  simp [after, hjump]

theorem after_back {k : JumpKind} (hjump : s.after.attrs.jump = some k) (hk : k ≠ .fine) :
    after t w s = if (w.damage[w.cursor]?).getD 0 = 0 then
      (.goto (if k = .dalSegno then segnoBefore t w.cursor else 0), w.markUsed w.cursor false)
    else after.rest t s w := by
  cases k with
  | fine => exact absurd rfl hk
  | dalSegno => simp [after, hjump]
  | daCapo => simp [after, hjump]

end Barline

end Performer

namespace Walk

theorem usedAfter_eq_true {w : Walk} {k : Nat} :
    w.usedAfter k = true ↔ ∃ i, k < i ∧ 0 < w.damage.getD i 0 := by
  rw [usedAfter, Array.any_eq_true]
  simp only [Array.size_extract, Array.getElem_extract, Array.getD_eq_getD_getElem?]
  constructor
  · rintro ⟨i, hi, hpos⟩
    refine ⟨k + 1 + i, by omega, ?_⟩
    rw [Array.getElem?_eq_getElem (by omega)]
    simpa using hpos
  · rintro ⟨i, hki, hpos⟩
    have hi : i < w.damage.size := by
      by_contra h
      simp [Array.getElem?_eq_none (by omega : w.damage.size ≤ i)] at hpos
    refine ⟨i - (k + 1), by omega, ?_⟩
    rw [Array.getElem?_eq_getElem hi] at hpos
    simpa [show k + 1 + (i - (k + 1)) = i by omega] using hpos

/-- Using the mark after column `k` counts one more use there, and one more jump when it
jumped back; every other column keeps its counts. -/
theorem markUsed_damage_getD (w : Walk) (k : Nat) (b : Bool) (i : Nat) :
    (w.markUsed k b).damage.getD i 0 =
      if i = k ∧ k < w.damage.size then w.damage.getD i 0 + 1 else w.damage.getD i 0 := by
  simp only [markUsed, Array.getD_eq_getD_getElem?, Array.getElem?_modify]
  by_cases hik : i = k
  · subst hik
    by_cases hk : i < w.damage.size <;> simp [hk]
  · simp [hik, Ne.symm hik]

theorem markUsed_jumps_getD (w : Walk) (k : Nat) (i : Nat) :
    (w.markUsed k true).jumps.getD i 0 =
      if i = k ∧ k < w.jumps.size then w.jumps.getD i 0 + 1 else w.jumps.getD i 0 := by
  simp only [markUsed, if_true, Array.getD_eq_getD_getElem?, Array.getElem?_modify]
  by_cases hik : i = k
  · subst hik
    by_cases hk : i < w.jumps.size <;> simp [hk]
  · simp [hik, Ne.symm hik]

@[simp] theorem markUsed_jumps_size (w : Walk) (k : Nat) (b : Bool) :
    (w.markUsed k b).jumps.size = w.jumps.size := by
  cases b <;> simp [markUsed]

@[simp] theorem markUsed_damage_size (w : Walk) (k : Nat) (b : Bool) :
    (w.markUsed k b).damage.size = w.damage.size := by
  simp [markUsed]

@[simp] theorem markUsed_visited (w : Walk) (k : Nat) (b : Bool) :
    (w.markUsed k b).visited = w.visited := rfl

@[simp] theorem mapPasses_jumps (w : Walk) (f : Array Pass → Array Pass) :
    (w.mapPasses f).jumps = w.jumps := rfl

@[simp] theorem mapPasses_damage (w : Walk) (f : Array Pass → Array Pass) :
    (w.mapPasses f).damage = w.damage := rfl

@[simp] theorem mapPasses_visited (w : Walk) (f : Array Pass → Array Pass) :
    (w.mapPasses f).visited = w.visited := rfl

end Walk

/-! ## Following a reading -/

/-- The walk has played the reading `ref` but for its end `rest`, on passes numbered 1, 2, 3,
..., and has not been cut short. -/
structure Tracks (ref rest : List Nat) (w : Walk) : Prop where
  numbers : passNumbers w.passes = List.range' 1 w.passes.size
  opened : 0 < w.passes.size
  plays : w.passes.toList.flatMap Pass.indices ++ rest = ref
  going : w.overflow = false

namespace Tracks

variable {ref rest : List Nat} {w : Walk}

theorem congr {w' : Walk} (h : Tracks ref rest w) (hp : w'.passes = w.passes)
    (ho : w'.overflow = w.overflow) : Tracks ref rest w' where
  numbers := hp ▸ h.numbers
  opened := hp ▸ h.opened
  plays := hp ▸ h.plays
  going := ho ▸ h.going

theorem number_eq (h : Tracks ref rest w) : w.number = w.passes.size := by
  obtain ⟨p, hp⟩ := Option.isSome_iff_exists.1
    (Array.back?_isSome.2 (Array.ne_empty_of_size_pos h.opened))
  have hlast := passNumbers_getLast? w.passes
  rw [h.numbers, hp, Option.map_some] at hlast
  rw [Walk.number_eq hp]
  have hne : w.passes.size ≠ 0 := by have := h.opened; omega
  rw [List.getLast?_range', if_neg hne, Option.some.injEq] at hlast
  omega

theorem play {pf : Performer} {t : Timeline} {flat : Bool} (h : Tracks ref (w.cursor :: rest) w) :
    Tracks ref rest (pf.play t flat w) := by
  obtain ⟨p, hp⟩ := Option.isSome_iff_exists.1
    (Array.back?_isSome.2 (Array.ne_empty_of_size_pos h.opened))
  obtain ⟨ys, hys⟩ := Array.back?_eq_some_iff.1 hp
  obtain ⟨s, hs, hplay⟩ := @Performer.play_passes_push pf t flat _ _ _ hys
  have hnum : passNumbers (pf.play t flat w).passes = passNumbers w.passes := by
    rw [passNumbers, Performer.numbers_play]
    rfl
  refine ⟨?_, by simpa using h.opened, ?_, by simpa using h.going⟩
  · rw [hnum, h.numbers, Performer.play_passes_size]
  · have hold := h.plays
    rw [hplay, ← hold, hys]
    simp [hs]

theorem jump {pf : Performer} {w' : Walk} (h : Tracks ref rest w)
    (ho : pf.openPass w (w.number + 1) = some w') : Tracks ref rest w' := by
  obtain ⟨-, rfl⟩ := Performer.openPass_eq_some.1 ho
  refine ⟨?_, by simp, ?_, h.going⟩
  · rw [Walk.mapPasses_passes, passNumbers_push, h.numbers, h.number_eq, Array.size_push,
      List.range'_concat]
    simp [Nat.add_comm]
  · simpa using h.plays

theorem start {pf : Performer} {t : Timeline} {w₀ : Walk} (h : pf.openPass (Performer.start t) 1 = some w₀) :
    Tracks ref ref w₀ := by
  obtain ⟨-, rfl⟩ := Performer.openPass_eq_some.1 h
  exact ⟨by simp [passNumbers], by simp, by simp, rfl⟩

end Tracks

namespace Performer

/-- Passes with distinct numbers, each playing columns in increasing order, play no column twice
under one number. -/
theorem playsOn_nodup {ps : Array Pass} (hn : (passNumbers ps).Nodup)
    (hinc : ∀ p ∈ ps, p.indices.Pairwise (· < ·)) : (playsOn ps).Nodup := by
  unfold playsOn
  rw [List.nodup_flatMap]
  refine ⟨fun p hp => List.Nodup.map (fun _ _ h => (Prod.mk.inj h).1)
    ((hinc p (Array.mem_def.2 hp)).imp Nat.ne_of_lt), ?_⟩
  have hpair : ps.toList.Pairwise fun a b => a.number ≠ b.number := by
    rwa [passNumbers, List.Nodup, List.pairwise_map] at hn
  refine hpair.imp fun hne => ?_
  simp only [Function.onFun]
  rw [List.disjoint_left]
  intro x hx hx'
  simp only [List.mem_map] at hx hx'
  obtain ⟨_, -, rfl⟩ := hx
  obtain ⟨_, -, h⟩ := hx'
  exact hne (Prod.mk.inj h).2.symm

theorem walk_conflicts_nil (pf : Performer) (t : Timeline) (flat : Bool)
    (h : (passNumbers (pf.walk t flat).passes).Nodup) : (pf.walk t flat).conflicts = [] := by
  have hnodup := playsOn_nodup h (walk_settled : Settled pf t (pf.walk t flat)).increasing
  refine List.eq_nil_iff_forall_not_mem.2 fun k hk => ?_
  obtain ⟨m, hm⟩ := ((walk_tally pf t flat).conflicts k).1 hk
  have := List.nodup_iff_count_le_one.1 hnodup (k, m)
  omega

end Performer

end Jianpu
