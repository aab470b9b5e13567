import Mathlib
import Jianpu.Proofs.Performance.Turns
/-!
# A read ends within its limits

Whatever the timeline and its marks, a read (straight through or performed) ends, and:

* it opens at most `limit` passes;
* each pass plays columns of the timeline in strictly increasing order, so at most
  `sectionCount` of them, and `limit * sectionCount` sections in all;
* it is cut short exactly when it raised an overflow error, and it raises at most one.

Termination is the measure of `Performer.run` (`turn_lex`): a turn that goes on opens a pass
or moves the cursor ahead. `Performer.Reads` states it as a relation: the walk a read reports
is the end of finitely many turns from its first pass.

* `Performer.Bounded`   what holds of the passes and issues while the walk goes on;
* `Performer.Behind`    the last pass plays only columns before the cursor;
* `Performer.Settled`   what holds where the walk ends;
* `read_within_limits`  the statement for a read.
-/

namespace Jianpu

def Issue.isOverflow (i : Issue) : Bool := i.problem.key == "repeat_overflow"

namespace Performer

variable {pf : Performer} {t : Timeline} {flat : Bool}

/-- While the walk goes on: between one and `limit` passes, each playing columns of the
timeline in strictly increasing order; the walk is not cut short and has raised no overflow
error. -/
structure Bounded (pf : Performer) (t : Timeline) (w : Walk) : Prop where
  opened : 0 < w.passes.size
  within : w.passes.size ≤ pf.limit
  increasing : ∀ p ∈ w.passes, p.indices.Pairwise (· < ·)
  inside : ∀ p ∈ w.passes, ∀ k ∈ p.indices, k < t.sectionCount
  going : w.overflow = false
  quiet : w.issues.toList.countP Issue.isOverflow = 0

def Behind (w : Walk) : Prop := ∀ p ∈ w.passes.back?, ∀ k ∈ p.indices, k < w.cursor

/-- Where the walk ends: at most `limit` passes, each playing columns of the timeline in
strictly increasing order; cut short exactly when one overflow error was raised. -/
structure Settled (pf : Performer) (t : Timeline) (w : Walk) : Prop where
  within : w.passes.size ≤ pf.limit
  increasing : ∀ p ∈ w.passes, p.indices.Pairwise (· < ·)
  inside : ∀ p ∈ w.passes, ∀ k ∈ p.indices, k < t.sectionCount
  overflowed : w.issues.toList.countP Issue.isOverflow = if w.overflow then 1 else 0

/-! ## What each part of a turn keeps -/

theorem Bounded.congr {w w' : Walk} (h : Bounded pf t w) (hp : w'.passes = w.passes)
    (ho : w'.overflow = w.overflow) (hi : w'.issues = w.issues) : Bounded pf t w' where
  opened := hp ▸ h.opened
  within := hp ▸ h.within
  increasing := hp ▸ h.increasing
  inside := hp ▸ h.inside
  going := ho ▸ h.going
  quiet := hi ▸ h.quiet

theorem Bounded.settled {w : Walk} (h : Bounded pf t w) : Settled pf t w where
  within := h.within
  increasing := h.increasing
  inside := h.inside
  overflowed := by rw [h.going, h.quiet]; rfl

theorem Bounded.cutShort {w : Walk} (h : Bounded pf t w) : Settled pf t (pf.cutShort t w) where
  within := h.within
  increasing := h.increasing
  inside := h.inside
  overflowed := by
    simp only [cutShort_issues, Array.toList_push, List.countP_append, h.quiet, cutShort_overflow]
    rfl

/-- A pass opened empty keeps the walk bounded, with nothing played on it yet. -/
theorem Bounded.openPass {w w' : Walk} {m : Nat} (h : Bounded pf t w)
    (ho : pf.openPass w m = some w') : Bounded pf t w' ∧ ∀ c, Behind { w' with cursor := c } := by
  obtain ⟨hlt, rfl⟩ := openPass_eq_some.1 ho
  refine ⟨⟨by simp, by simp; omega, ?_, ?_, h.going, h.quiet⟩, ?_⟩
  · intro p hp
    rcases Array.mem_push.1 hp with hp | rfl
    · exact h.increasing p hp
    · simp
  · intro p hp
    rcases Array.mem_push.1 hp with hp | rfl
    · exact h.inside p hp
    · simp
  · intro c p hp
    simp only [Walk.mapPasses_passes, Array.back?_push, Option.mem_def, Option.some.injEq] at hp
    subst hp
    simp

/-- A reset renumbers the last pass, still empty, or opens one: the walk stays bounded, and
the cursor stays. -/
theorem Bounded.prepared {s : Separators} {w w₁ : Walk} (h : Bounded pf t w) (hb : Behind w)
    (hp : Prepared pf flat s w w₁) : Bounded pf t w₁ ∧ Behind w₁ ∧ w₁.cursor = w.cursor := by
  rcases prepared_cases hp with rfl | ⟨ys, p, hys, hempty, rfl⟩ | ⟨hlt, rfl⟩
  · exact ⟨h, hb, rfl⟩
  · have hmem : ∀ q ∈ ys.push { p with number := 1 }, q ∈ w.passes ∨ q.sections = #[] := by
      intro q hq
      rcases Array.mem_push.1 hq with hq | rfl
      · exact .inl (hys ▸ Array.mem_push.2 (.inl hq))
      · exact .inr hempty
    refine ⟨⟨by simp, by simpa [hys] using h.within, ?_, ?_, h.going, h.quiet⟩, ?_, rfl⟩
    · intro q hq
      rcases hmem q hq with hq | hq
      · exact h.increasing q hq
      · simp [Pass.indices, hq]
    · intro q hq
      rcases hmem q hq with hq | hq
      · exact h.inside q hq
      · simp [Pass.indices, hq]
    · intro q hq
      simp only [Walk.mapPasses_passes, Array.back?_push, Option.mem_def,
        Option.some.injEq] at hq
      subst hq
      simp [Pass.indices, hempty]
  · obtain ⟨h₁, hb₁⟩ := h.openPass (openPass_eq_some.2 ⟨hlt, rfl⟩)
    exact ⟨h₁, hb₁ w.cursor, rfl⟩

/-- Voices that disagree are reported as a time signature or a speed that differs. -/
theorem mismatch_problem {s : PlayedSection} {i : Issue} (h : mismatch t flat s = some i) :
    (∃ n, i.problem = .beatsMismatch n) ∨ (∃ n, i.problem = .qpmMismatch n) := by
  unfold mismatch at h
  dsimp only at h
  split at h
  · split at h
    · split at h
      · cases h
        exact .inl ⟨_, rfl⟩
      · cases h
    · cases h
  · split at h
    · split at h
      · cases h
        exact .inr ⟨_, rfl⟩
      · cases h
    · cases h

theorem mismatch_not_overflow {s : PlayedSection} {i : Issue}
    (h : mismatch t flat s = some i) : i.isOverflow = false := by
  rcases mismatch_problem h with ⟨_, hp⟩ | ⟨_, hp⟩ <;> simp [Issue.isOverflow, hp, Problem.key]

/-- Playing raises no overflow error. -/
theorem play_countOverflow (w : Walk) :
    (pf.play t flat w).issues.toList.countP Issue.isOverflow =
      w.issues.toList.countP Issue.isOverflow := by
  have htally : ∀ k m, (tally t w k m).issues.toList.countP Issue.isOverflow =
      w.issues.toList.countP Issue.isOverflow := by
    intro k m
    unfold tally
    split
    · split
      · rfl
      · simp only [Walk.raise_issues, Array.toList_push, List.countP_append]
        rfl
    · rfl
  have hvisit : ∀ (v : Walk) k s, (visit t flat v k s).issues.toList.countP Issue.isOverflow =
      v.issues.toList.countP Issue.isOverflow := by
    intro v k s
    unfold visit
    split
    · rfl
    · split
      · rename_i i hi
        simp only [Walk.raise_issues, Walk.markVisited_issues, Array.toList_push,
          List.countP_append, List.countP_singleton, mismatch_not_overflow hi]
        rfl
      · rfl
  simp only [play, Walk.record_issues, hvisit, htally]

/-- Playing the section at the cursor, below the last column, keeps the walk bounded; the
last pass then plays only columns up to the cursor. -/
theorem Bounded.play {w : Walk} (h : Bounded pf t w) (hb : Behind w)
    (hk : w.cursor < t.sectionCount) :
    Bounded pf t (pf.play t flat w) ∧ ∀ p ∈ (pf.play t flat w).passes.back?,
      ∀ k ∈ p.indices, k < w.cursor + 1 := by
  obtain ⟨p, hp⟩ := Option.isSome_iff_exists.1
    (Array.back?_isSome.2 (Array.ne_empty_of_size_pos h.opened))
  obtain ⟨ys, hys⟩ := Array.back?_eq_some_iff.1 hp
  obtain ⟨s, hs, hplay⟩ := @play_passes_push pf t flat _ _ _ hys
  have hbehind : ∀ k ∈ p.indices, k < w.cursor := hb p hp
  have hold : ∀ q ∈ ys, q ∈ w.passes := fun q hq => hys ▸ Array.mem_push.2 (.inl hq)
  have hlast : p ∈ w.passes := hys ▸ Array.mem_push.2 (.inr rfl)
  refine ⟨⟨by simp [hplay], by simpa [hplay, hys] using h.within, ?_, ?_, ?_, ?_⟩, ?_⟩
  · intro q hq
    rw [hplay] at hq
    rcases Array.mem_push.1 hq with hq | rfl
    · exact h.increasing q (hold q hq)
    · rw [Pass.indices_push, List.pairwise_append]
      refine ⟨h.increasing p hlast, by simp, ?_⟩
      intro a ha b hb
      rw [List.mem_singleton.1 hb, hs]
      exact hbehind a ha
  · intro q hq
    rw [hplay] at hq
    rcases Array.mem_push.1 hq with hq | rfl
    · exact h.inside q (hold q hq)
    · intro k hk'
      rw [Pass.indices_push, List.mem_append, List.mem_singleton] at hk'
      rcases hk' with hk' | rfl
      · exact h.inside p hlast k hk'
      · exact hs ▸ hk
  · simpa using h.going
  · rw [play_countOverflow]
    exact h.quiet
  · intro q hq k hk'
    simp only [hplay, Array.back?_push, Option.mem_def, Option.some.injEq] at hq
    subst hq
    rw [Pass.indices_push, List.mem_append, List.mem_singleton] at hk'
    rcases hk' with hk' | rfl
    · exact Nat.lt_succ_of_lt (hbehind k hk')
    · rw [hs]
      exact Nat.lt_succ_self _

theorem Bounded.closing {s : Separators} {w w₁ : Walk} {st : Step} (h : Bounded pf t w)
    (hc : Performer.closing t flat s w = (st, w₁)) : Bounded pf t w₁ ∧ w₁.passes = w.passes ∧
      w₁.cursor = w.cursor := by
  rcases closing_cases hc with rfl | ⟨b, rfl⟩
  · exact ⟨h, rfl, rfl⟩
  · exact ⟨h.congr rfl rfl rfl, rfl, rfl⟩

/-- **Every turn keeps the walk bounded, or ends it settled.** -/
theorem Bounded.turn {w : Walk} {r : Turn} (h : Bounded pf t w ∧ Behind w)
    (ht : Turns pf t flat w r) :
    r.Lands (fun w => Bounded pf t w ∧ Behind w) (Settled pf t) := by
  obtain ⟨h, hb⟩ := h
  cases ht with
  | atEnd _ => exact h.settled
  | unmarked _ _ => exact h.settled
  | skipped hk _ _ hs =>
    exact ⟨h.congr rfl rfl rfl, fun p hp k hk' => Nat.lt_trans (hb p hp k hk') (skipTarget_gt hk hs)⟩
  | cutAtReset _ _ _ _ _ _ => exact h.cutShort
  | @played w₁ s r hk hs hskip hprep hfollow =>
    obtain ⟨h₁, hb₁, hcur⟩ := h.prepared hb hprep
    obtain ⟨hplayed, hupto⟩ := @Bounded.play _ _ flat _ h₁ hb₁ (hcur ▸ hk)
    cases hfollow with
    | next hc =>
      -- the cursor stands on the played column; `next` moves it past
      obtain ⟨h₂, hp₂, hc₂⟩ := hplayed.closing hc
      refine ⟨h₂.congr rfl rfl rfl, fun p hp k hk' => ?_⟩
      simp only [hc₂, play_cursor]
      exact hupto p (hp₂ ▸ hp) k hk'
    | stop hc => exact (hplayed.closing hc).1.settled
    | jump hc ho =>
      obtain ⟨h₃, hb₃⟩ := (hplayed.closing hc).1.openPass ho
      exact ⟨h₃.congr rfl rfl rfl, hb₃ _⟩
    | cutAtJump hc _ => exact (hplayed.closing hc).1.cutShort

theorem start_bounded {w₀ : Walk} {m : Nat} (h : pf.openPass (start t) m = some w₀) :
    Bounded pf t w₀ ∧ Behind w₀ := by
  obtain ⟨hlt, rfl⟩ := openPass_eq_some.1 h
  simp only [start_passes, Array.size_empty] at hlt
  refine ⟨⟨by simp, by simp; omega, ?_, ?_, rfl, rfl⟩, ?_⟩
  · simp
  · simp
  · intro p hp
    simp only [Walk.mapPasses_passes, Array.back?_push, Option.mem_def, Option.some.injEq] at hp
    subst hp
    simp

theorem walk_settled : Settled pf t (pf.walk t flat) := by
  unfold walk
  split
  · rename_i w₀ h
    exact run_invariant pf t flat (fun _ _ hw ht => Bounded.turn hw ht) w₀ (start_bounded h)
  · -- no pass could open: the walk is cut short at once
    refine ⟨by simp [start], by simp [start], by simp [start], ?_⟩
    simp only [cutShort_issues, cutShort_overflow, if_true]
    rfl

theorem size_le_of_increasing {p : Pass} {n : Nat} (hp : p.indices.Pairwise (· < ·))
    (hn : ∀ k ∈ p.indices, k < n) : p.sections.size ≤ n := by
  have hsub : p.indices.Subperm (List.range n) :=
    List.subperm_of_subset (hp.imp Nat.ne_of_lt) fun k hk => List.mem_range.2 (hn k hk)
  simpa [Pass.indices] using hsub.length_le

/-- **A read ends within its limits.** Its walk is the end of finitely many turns from its
first pass. It opens at most `limit` passes, each playing columns of the timeline in strictly
increasing order, so it plays at most `limit * sectionCount` sections. The issues it raises
hold an overflow error exactly when it was cut short, and never two. -/
theorem read_within_limits (pf : Performer) (t : Timeline) (flat : Bool) (j : Journal) :
    let (p, j') := (pf.read t flat).run j
    (∃ w, pf.Reads t flat w ∧ p.passes = w.passes ∧ p.overflow = w.overflow) ∧
    p.passes.size ≤ pf.limit ∧
    (∀ q ∈ p.passes, q.indices.Pairwise (· < ·) ∧ (∀ k ∈ q.indices, k < t.sectionCount) ∧
      q.sections.size ≤ t.sectionCount) ∧
    (p.passes.toList.map (·.sections.size)).sum ≤ pf.limit * t.sectionCount ∧
    ∃ raised : Array Issue, j'.issues = j.issues ++ raised ∧
      raised.toList.countP Issue.isOverflow = if p.overflow then 1 else 0 := by
  rw [read_run]
  have hs : Settled pf t (pf.walk t flat) := walk_settled
  -- every pass plays at most `sectionCount` sections
  have hsize : ∀ q ∈ (pf.walk t flat).passes, q.sections.size ≤ t.sectionCount :=
    fun q hq => size_le_of_increasing (hs.increasing q hq) (hs.inside q hq)
  have hsum : ((pf.walk t flat).passes.toList.map (·.sections.size)).sum ≤
      (pf.walk t flat).passes.size * t.sectionCount := by
    have := List.sum_le_card_nsmul ((pf.walk t flat).passes.toList.map (·.sections.size))
      t.sectionCount (by simpa using hsize)
    simpa using this
  refine ⟨⟨_, walk_reads pf t flat, rfl, rfl⟩, hs.within, fun q hq => ⟨hs.increasing q hq,
    hs.inside q hq, hsize q hq⟩, le_trans hsum (Nat.mul_le_mul_right _ hs.within), _, rfl, hs.overflowed⟩

end Performer

end Jianpu
