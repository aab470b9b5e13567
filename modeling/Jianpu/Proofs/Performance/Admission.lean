import Mathlib
import Jianpu.Proofs.Performance.RoadMap
/-!
# Voltas and jumpers over the played sections

The performed walk keeps a pass out of a volta bracket or a jumper where it enters them: at the
column whose barline carries the volta numbers, and at the jumper's first column, a pass they
do not name skips past them (`Performer.skipTarget`). Inside a bracket or a jumper nothing is
checked again, so the checks hold of every played section only while the walk lands on no
column inside one of them.

* `Timeline.LetsIn t b k m` — every jumper and bracket opened before column `b` that reaches
  column `k` plays on pass `m`; `t.LetsIn (k + 1) k m` is what a section at `k` played on
  pass `m` must satisfy, and `t.LetsIn k k m` is what the walk knows on arriving at `k`.
* `Timeline.Clear t k` — column `k` lies in no jumper and no bracket opened before it;
  `Timeline.LandsClear t` — every column a jump or a skip can land on is clear, and a reset
  stands only where pass 1 may play.
* `Admitted t w`, `Entered t w` — every section the walk has played is let in, and so is the
  cursor's column by what opened before it. Arriving at the next column keeps it
  (`LetsIn.next`), the checks at the column complete it (`letsIn_of_skipTarget`), and landing
  on a clear column starts it afresh (`Clear.letsIn`); every turn keeps both (`Admitted.turn`).

Main statement: `perform_plays_admitted`. Without the condition it fails: a `D.S.` to a segno in
the middle of a jumper that plays on the first pass only plays the jumper's later columns on the
second pass (`dal_segno_into_jumper_plays_outside_its_passes`).
-/

namespace Jianpu

namespace Timeline

variable (t : Timeline)

/-- Every jumper and volta bracket opened before column `b` that reaches column `k` plays on
pass `m`. -/
def LetsIn (b k m : Nat) : Prop :=
  (∀ j ∈ t.jumpers, j.start < b → j.contains k = true → j.accepts m = true) ∧
    ∀ s < b, ∀ seps ∈ t.separatorsAt s, seps.before.attrs.iterations ≠ [] →
      k < Performer.voltaEnd t s → m ∈ seps.before.attrs.iterations

def OutsideJumpers (k : Nat) : Prop := ∀ j ∈ t.jumpers, j.start < k → j.stop ≤ k

def OutsideBrackets (k : Nat) : Prop :=
  ∀ s < k, ∀ seps ∈ t.separatorsAt s, seps.before.attrs.iterations ≠ [] →
    Performer.voltaEnd t s ≤ k

def Clear (k : Nat) : Prop := t.OutsideJumpers k ∧ t.OutsideBrackets k

instance (b k m : Nat) : Decidable (t.LetsIn b k m) := inferInstanceAs (Decidable (_ ∧ _))

instance (k : Nat) : Decidable (t.OutsideJumpers k) :=
  inferInstanceAs (Decidable (∀ j ∈ t.jumpers, _))

instance (k : Nat) : Decidable (t.OutsideBrackets k) := inferInstanceAs (Decidable (∀ s < k, _))

instance (k : Nat) : Decidable (t.Clear k) := inferInstanceAs (Decidable (_ ∧ _))

/-- Every column the performed walk can land on by a jump or a skip is clear: the segnos a
`D.S.` goes back to, the `||:` a repeat goes back to (of brackets: the repeat checks the
jumpers over it when it looks for it), the portals a used mark skips to, and the columns past a
jumper or a bracket that a pass skips. A reset renumbers the pass after the checks, so it
stands only where pass 1 may play. -/
structure LandsClear : Prop where
  segno : ∀ k < t.sectionCount, ∀ seps ∈ t.separatorsAt k,
    seps.before.attrs.hasSegno = true → t.Clear k
  repeatStart : ∀ k < t.sectionCount, ∀ seps ∈ t.separatorsAt k,
    seps.before.barline.isRepeatStart = true → t.OutsideBrackets k
  portal : ∀ k < t.sectionCount, ∀ seps ∈ t.separatorsAt k,
    seps.before.attrs.hasPortal = true → t.Clear k
  pastJumper : ∀ j ∈ t.jumpers, t.Clear (max j.stop (j.start + 1))
  pastBracket : ∀ k < t.sectionCount, ∀ seps ∈ t.separatorsAt k,
    seps.before.attrs.iterations ≠ [] → t.Clear (Performer.voltaEnd t k)
  reset : ∀ k < t.sectionCount, ∀ seps ∈ t.separatorsAt k,
    seps.before.attrs.hasReset = true → t.LetsIn (k + 1) k 1

instance : Decidable t.LandsClear :=
  decidable_of_iff (_ ∧ _ ∧ _ ∧ _ ∧ _ ∧ _)
    ⟨fun ⟨h₁, h₂, h₃, h₄, h₅, h₆⟩ => ⟨h₁, h₂, h₃, h₄, h₅, h₆⟩,
      fun h => ⟨h.segno, h.repeatStart, h.portal, h.pastJumper, h.pastBracket, h.reset⟩⟩

variable {t}

theorem letsIn_zero (k m : Nat) : t.LetsIn 0 k m :=
  ⟨fun _ _ h => absurd h (Nat.not_lt_zero _), fun _ h => absurd h (Nat.not_lt_zero _)⟩

theorem LetsIn.next {k m : Nat} (h : t.LetsIn (k + 1) k m) : t.LetsIn (k + 1) (k + 1) m := by
  obtain ⟨hjumpers, hbrackets⟩ := h
  refine ⟨fun j hj hstart hin => hjumpers j hj hstart ?_, fun s hs seps hseps hv hend =>
    hbrackets s hs seps hseps hv (by omega)⟩
  simp only [Jumper.contains, Bool.and_eq_true, decide_eq_true_eq] at hin ⊢
  omega

theorem Clear.letsIn {k : Nat} (h : t.Clear k) (m : Nat) : t.LetsIn k k m := by
  obtain ⟨hjumpers, hbrackets⟩ := h
  refine ⟨fun j hj hstart hin => ?_, fun s hs seps hseps hv hend =>
    absurd hend (Nat.not_lt.2 (hbrackets s hs seps hseps hv))⟩
  have := hjumpers j hj hstart
  simp only [Jumper.contains, Bool.and_eq_true, decide_eq_true_eq] at hin
  omega

/-- A column whose brackets are behind it, and that `admits` a pass, lets the pass arrive: the
check covers every jumper over it. -/
theorem letsIn_of_admits {k m : Nat} (hk : t.OutsideBrackets k)
    (h : Performer.admits t k m = true) : t.LetsIn k k m := by
  refine ⟨fun j hj _ hin => ?_, fun s hs seps hseps hv hend =>
    absurd hend (Nat.not_lt.2 (hk s hs seps hseps hv))⟩
  unfold Performer.admits at h
  split at h
  · cases h
  · simp only [Bool.and_eq_true, Bool.not_eq_true', Array.any_eq_false'] at h
    simpa [hin] using h.2 j hj

end Timeline

def Admitted (t : Timeline) (w : Walk) : Prop :=
  ∀ q ∈ w.passes, ∀ k ∈ q.indices, t.LetsIn (k + 1) k q.number

/-- The column at the cursor, if the walk is still on the article, is let in by the jumpers and
brackets opened before it. -/
def Entered (t : Timeline) (w : Walk) : Prop :=
  w.cursor < t.sectionCount → t.LetsIn w.cursor w.cursor w.number

namespace Performer

variable {pf : Performer} {t : Timeline} {flat : Bool}

@[simp] theorem play_number (w : Walk) : (pf.play t flat w).number = w.number := by
  simp only [Walk.number, Array.back?, play_passes, Array.getElem?_modify, Array.size_modify,
    if_true, Option.map_map]
  rfl

/-- The checks at the cursor: no jumper starting there rejects the pass, and the volta numbers
of its barline, if any, name it. -/
theorem skipTarget_eq_none {w : Walk} {s : Separators} (h : skipTarget t w s = none) :
    (∀ j ∈ t.jumpers, j.start = w.cursor → j.accepts w.number = true) ∧
      (s.before.attrs.iterations = [] ∨ w.number ∈ s.before.attrs.iterations) := by
  unfold skipTarget at h
  dsimp only at h
  split at h
  · cases h
  · rename_i hfind
    refine ⟨fun j hj hstart => by simpa [hstart] using Array.find?_eq_none.1 hfind j hj, ?_⟩
    split at h
    · cases h
    · rename_i hvolta
      simp only [Bool.and_eq_true, Bool.not_eq_eq_eq_not, Bool.not_true,
        List.isEmpty_eq_false_iff, List.contains_eq_mem, decide_eq_false_iff_not,
        not_and, not_not] at hvolta
      by_cases hnil : s.before.attrs.iterations = []
      · exact .inl hnil
      · exact .inr (hvolta hnil)

/-- A section that passes the checks at its column, arrived at by a pass that what opened before
it lets in, is let in by everything over it. -/
theorem letsIn_of_skipTarget {w : Walk} {s : Separators} (hs : t.separatorsAt w.cursor = some s)
    (hskip : skipTarget t w s = none) (hin : t.LetsIn w.cursor w.cursor w.number) :
    t.LetsIn (w.cursor + 1) w.cursor w.number := by
  obtain ⟨hjumpers, hvolta⟩ := skipTarget_eq_none hskip
  refine ⟨fun j hj hstart hcont => ?_, fun k hk' seps hseps hv hend => ?_⟩
  · -- a jumper over the cursor started before it or at it
    rcases Nat.lt_succ_iff_lt_or_eq.1 hstart with hlt | heq
    · exact hin.1 j hj hlt hcont
    · exact hjumpers j hj heq
  · rcases Nat.lt_succ_iff_lt_or_eq.1 hk' with hlt | rfl
    · exact hin.2 k hlt seps hseps hv hend
    · obtain rfl : seps = s := Option.some.inj (hseps.symm.trans hs)
      exact hvolta.resolve_left hv

/-- Where a skip lands: past a jumper starting at the cursor, at the end of the bracket opening
there, at a portal ahead, or past the last column. -/
theorem skipTarget_cases {w : Walk} {s : Separators} {target : Nat}
    (h : skipTarget t w s = some target) :
    (∃ j ∈ t.jumpers, j.start = w.cursor ∧ target = max j.stop (j.start + 1)) ∨
      (s.before.attrs.iterations ≠ [] ∧ target = voltaEnd t w.cursor) ∨
      target = t.sectionCount ∨
      (target < t.sectionCount ∧ ∃ seps ∈ t.separatorsAt target, seps.before.attrs.hasPortal) := by
  unfold skipTarget at h
  dsimp only at h
  split at h
  · rename_i j hj
    have hfound := Array.find?_some hj
    simp only [Bool.and_eq_true, beq_iff_eq] at hfound
    have hstart : j.start = w.cursor := hfound.1
    rw [Option.some.injEq] at h
    exact .inl ⟨j, Array.mem_of_find?_eq_some hj, hstart, by rw [← h, hstart]⟩
  · split at h
    · rename_i hvolta
      rw [Option.some.injEq] at h
      simp only [Bool.and_eq_true, Bool.not_eq_eq_eq_not, Bool.not_true,
        List.isEmpty_eq_false_iff] at hvolta
      exact .inr (.inl ⟨hvolta.1, h.symm⟩)
    · split at h
      · -- the next portal among the columns after the cursor, or the end
        rw [Option.some.injEq] at h
        subst h
        cases hf : ((List.range (t.sectionCount - (w.cursor + 1))).map (w.cursor + 1 + ·)).find?
            (fun i => (t.separatorsAt i).any (·.before.attrs.hasPortal)) with
        | none => exact .inr (.inr (.inl rfl))
        | some i =>
          have hi := List.mem_of_find?_eq_some hf
          simp only [List.mem_map, List.mem_range] at hi
          obtain ⟨x, hx, rfl⟩ := hi
          have hp := List.find?_some hf
          obtain ⟨seps, hseps, hportal⟩ := (Option.any_eq_true _ _).1 hp
          exact .inr (.inr (.inr ⟨by simp; omega, seps, hseps, hportal⟩))
      · cases h

theorem skipTarget_clear {w : Walk} {s : Separators} {target : Nat} (ht : t.LandsClear)
    (hk : w.cursor < t.sectionCount) (hs : t.separatorsAt w.cursor = some s)
    (h : skipTarget t w s = some target) (htarget : target < t.sectionCount) : t.Clear target := by
  rcases skipTarget_cases h with ⟨j, hj, -, rfl⟩ | ⟨hv, rfl⟩ | rfl | ⟨-, seps, hseps, hportal⟩
  · exact ht.pastJumper j hj
  · exact ht.pastBracket _ hk s hs hv
  · exact absurd htarget (Nat.lt_irrefl _)
  · exact ht.portal _ htarget seps hseps hportal

theorem rest_goto {s : Separators} {w w₁ : Walk} {target : Nat}
    (h : after.rest t s w = (.goto target, w₁)) : target = repeatStartBefore t w w.cursor := by
  unfold after.rest at h
  dsimp only at h
  split at h
  · simp only [Prod.mk.injEq, Step.goto.injEq] at h
    exact h.1.symm
  · split at h <;> simp at h

/-- Where a jump back goes: to the start, to the segno before the cursor, or to the `||:`
before it. -/
theorem after_goto {s : Separators} {w w₁ : Walk} {target : Nat}
    (h : after t w s = (.goto target, w₁)) :
    target = 0 ∨ target = segnoBefore t w.cursor ∨ target = repeatStartBefore t w w.cursor := by
  unfold after at h
  dsimp only at h
  split at h
  · -- `D.S.`, while its mark is unused
    split at h
    · rename_i hjump _
      simp only [hjump, Prod.mk.injEq, Step.goto.injEq] at h
      exact .inr (.inl h.1.symm)
    · exact .inr (.inr (rest_goto h))
  · -- `D.C.`, while its mark is unused
    split at h
    · rename_i hjump _
      simp only [hjump, Prod.mk.injEq, Step.goto.injEq] at h
      exact .inl h.1.symm
    · exact .inr (.inr (rest_goto h))
  · split at h
    · simp at h
    · exact .inr (.inr (rest_goto h))
  · exact .inr (.inr (rest_goto h))

theorem segnoBefore_spec (t : Timeline) (k : Nat) :
    segnoBefore t k ≤ k ∧ (segnoBefore t k = 0 ∨
      (t.separatorsAt (segnoBefore t k)).any (·.before.attrs.hasSegno) = true) :=
  find?_range_reverse_getD _ k

/-- The `||:` a repeat goes back to is before it, and one that admits the next pass, or the
start. -/
theorem repeatStartBefore_spec (w : Walk) (k : Nat) :
    repeatStartBefore t w k ≤ k ∧ (repeatStartBefore t w k = 0 ∨
      ((t.separatorsAt (repeatStartBefore t w k)).any (·.before.barline.isRepeatStart) = true ∧
        admits t (repeatStartBefore t w k) (w.number + 1) = true)) := by
  obtain ⟨hle, hfound⟩ := find?_range_reverse_getD (fun i =>
    (t.separatorsAt i).any (·.before.barline.isRepeatStart) && admits t i (w.number + 1)) k
  exact ⟨hle, hfound.imp_right fun h => by rwa [Bool.and_eq_true] at h⟩

/-- A jump back from a column of an article that lands clear lets the next pass arrive where it
lands: at the start nothing is open yet, a segno is clear, and a `||:` has its brackets behind
it and is looked for among those that admit the next pass. -/
theorem letsIn_of_closing {s : Separators} {w w₁ : Walk} {target : Nat} (ht : t.LandsClear)
    (hk : w.cursor < t.sectionCount) (hc : closing t false s w = (.goto target, w₁)) :
    t.LetsIn target target (w.number + 1) := by
  rcases after_goto hc with rfl | rfl | rfl
  · exact Timeline.letsIn_zero _ _
  · obtain ⟨hle, hzero | hsegno⟩ := segnoBefore_spec t w.cursor
    · rw [hzero]
      exact Timeline.letsIn_zero _ _
    · obtain ⟨seps, hseps, hmark⟩ := (Option.any_eq_true _ _).1 hsegno
      exact (ht.segno _ (by omega) seps hseps hmark).letsIn _
  · obtain ⟨hle, hzero | ⟨hstart, hadmits⟩⟩ := repeatStartBefore_spec w w.cursor
    · rw [hzero]
      exact Timeline.letsIn_zero _ _
    · obtain ⟨seps, hseps, hmark⟩ := (Option.any_eq_true _ _).1 hstart
      exact Timeline.letsIn_of_admits (ht.repeatStart _ (by omega) seps hseps hmark) hadmits

theorem prepared_number {s : Separators} {w w₁ : Walk} (hp : Prepared pf false s w w₁)
    (hreset : s.before.attrs.hasReset = true) : w₁.number = 1 := by
  rw [Prepared, if_pos (by simp [hreset])] at hp
  rcases reset_cases hp with ⟨ys, p, -, -, rfl⟩ | ⟨-, rfl⟩ <;> simp [Walk.number]

end Performer

namespace Admitted

variable {pf : Performer} {t : Timeline} {flat : Bool} {w w' : Walk}

theorem congr (h : Admitted t w) (hp : w'.passes = w.passes) : Admitted t w' := by
  intro q hq
  rw [hp] at hq
  exact h q hq

theorem push (h : Admitted t w) {q : Pass} (hq : q.sections = #[])
    (hp : w'.passes = w.passes.push q) : Admitted t w' := by
  intro q' hq' k hk
  rw [hp] at hq'
  rcases Array.mem_push.1 hq' with hq' | rfl
  · exact h q' hq' k hk
  · simp [Pass.indices, hq] at hk

theorem prepared {s : Separators} {w₁ : Walk} (h : Admitted t w)
    (hprep : Performer.Prepared pf flat s w w₁) : Admitted t w₁ := by
  rcases Performer.prepared_cases hprep with rfl | ⟨ys, p, hps, hempty, rfl⟩ | ⟨-, rfl⟩
  · exact h
  · have hys : Admitted t (w.mapPasses fun _ => ys) := fun q hq => h q (by
      rw [hps]
      exact Array.mem_push_of_mem _ hq)
    exact hys.push (by simp [hempty]) rfl
  · exact push h rfl rfl

theorem play (h : Admitted t w) (hk : t.LetsIn (w.cursor + 1) w.cursor w.number) :
    Admitted t (pf.play t flat w) := by
  by_cases hsize : w.passes.size = 0
  · intro q hq
    have : (pf.play t flat w).passes.size = 0 := by simpa using hsize
    simp [Array.eq_empty_of_size_eq_zero this] at hq
  obtain ⟨ys, p, hps⟩ := Array.eq_push_of_size_ne_zero hsize
  obtain ⟨s, hs, hplay⟩ := @Performer.play_passes_push pf t flat _ _ _ hps
  have hnum : w.number = p.number := Walk.number_eq (by simp [hps])
  intro q hq k hk
  rw [hplay] at hq
  rcases Array.mem_push.1 hq with hq | rfl
  · exact h q (by rw [hps]; exact Array.mem_push_of_mem _ hq) k hk
  · rw [Pass.indices_push, List.mem_append, List.mem_singleton] at hk
    rcases hk with hk | rfl
    · exact h p (by rw [hps]; exact Array.mem_push_self) k hk
    · rw [hs, ← hnum]
      exact hk

/-- **Every turn keeps the played sections and the cursor's column let in**, on an article that
lands clear. The played column is let in by what opened before it and by the checks there, or,
after a reset, by the article's condition on resets; the next column inherits it, and every jump
or skip lands clear. -/
theorem turn (ht : t.LandsClear) {r : Turn} (h : Admitted t w ∧ Entered t w)
    (hturn : Performer.Turns pf t false w r) :
    r.Lands (fun w => Admitted t w ∧ Entered t w) (Admitted t) := by
  obtain ⟨hadm, hent⟩ := h
  cases hturn with
  | atEnd => exact hadm
  | unmarked => exact hadm
  | skipped hk hs _ hskip =>
    exact ⟨hadm, fun htarget => (Performer.skipTarget_clear ht hk hs hskip htarget).letsIn _⟩
  | cutAtReset => exact hadm.congr (by simp)
  | @played w₁ s _ hk hs hskip hprep hfol =>
    have hcur : w₁.cursor = w.cursor := Performer.prepared_cursor hprep
    -- the played column is let in on the pass it is played on
    have hlet : t.LetsIn (w₁.cursor + 1) w₁.cursor w₁.number := by
      cases hreset : s.before.attrs.hasReset
      · obtain rfl := hprep.eq_of_no_reset hreset
        exact Performer.letsIn_of_skipTarget hs (hskip rfl) (hent hk)
      · rw [hcur, Performer.prepared_number hprep hreset]
        exact ht.reset _ hk s hs hreset
    have hplayed : Admitted t (pf.play t false w₁) := (hadm.prepared hprep).play hlet
    cases hfol with
    | @next w₂ hc =>
      have hpass := Performer.passes_of_closing hc
      have hnum := Walk.number_congr hpass
      refine ⟨hplayed.congr hpass, fun _ => ?_⟩
      show t.LetsIn (w₂.cursor + 1) (w₂.cursor + 1) w₂.number
      rw [Performer.cursor_of_closing hc, hnum, Performer.play_cursor, Performer.play_number]
      exact hlet.next
    | stop hc => exact hplayed.congr (Performer.passes_of_closing hc)
    | jump hc ho =>
      obtain ⟨-, rfl⟩ := Performer.openPass_eq_some.1 ho
      have hpass := Performer.passes_of_closing hc
      have hnum := Walk.number_congr hpass
      refine ⟨push (hplayed.congr hpass) rfl rfl, fun _ => ?_⟩
      have hland := Performer.letsIn_of_closing ht (by simpa [hcur] using hk) hc
      rw [← hnum] at hland
      simpa [Walk.number] using hland
    | cutAtJump hc _ => exact (hplayed.congr (Performer.passes_of_closing hc)).congr (by simp)

end Admitted

/-- On an article that lands clear, every section the performed walk plays is let in by every
jumper and bracket over it. -/
theorem walk_admitted (pf : Performer) {t : Timeline} (ht : t.LandsClear) :
    Admitted t (pf.walk t false) := by
  have hstart : Admitted t (Performer.start t) := fun q hq => by simp at hq
  unfold Performer.walk
  split
  · rename_i w₀ ho
    obtain ⟨-, rfl⟩ := Performer.openPass_eq_some.1 ho
    exact Performer.run_invariant pf t false (fun _ _ hw hr => Admitted.turn ht hw hr) _
      ⟨hstart.push rfl rfl, fun _ => Timeline.letsIn_zero _ _⟩
  · exact hstart.congr (by simp)

/-- **Voltas and jumpers are respected where the walk lands clear.** On an article whose jumps
and skips land only on columns inside no jumper or bracket opened before them, every section
the performed read plays, at column `k` on a pass numbered `m`, is let in: every jumper over
`k` plays on `m`, and every volta bracket opened at or before `k` that reaches it names `m`. -/
theorem perform_plays_admitted (pf : Performer) (t : Timeline) (ht : t.LandsClear)
    (j : Journal) :
    let p := ((pf.read t false).run j).1
    ∀ q ∈ p.passes, ∀ k ∈ q.indices,
      (∀ jumper ∈ t.jumpers, jumper.contains k = true → jumper.accepts q.number = true) ∧
        ∀ s ≤ k, ∀ seps, t.separatorsAt s = some seps → seps.before.attrs.iterations ≠ [] →
          k < Performer.voltaEnd t s → q.number ∈ seps.before.attrs.iterations := by
  rw [Performer.read_run]
  intro p q hq k hk
  obtain ⟨hjumpers, hbrackets⟩ := walk_admitted pf ht q hq k hk
  refine ⟨fun jumper hj hin => hjumpers jumper hj ?_ hin, fun s hs =>
    hbrackets s (Nat.lt_succ_of_le hs)⟩
  -- a jumper over `k` starts at or before it
  simp only [Jumper.contains, Bool.and_eq_true, decide_eq_true_eq] at hin
  omega

/-- A `D.S.` to a segno just past a jumper that plays on the first pass only lands clear. -/
theorem dal_segno_past_jumper_plays_admitted :
    let bar (a : BarlineAttrs) : Separator := ⟨.bar, a, default⟩
    let col (before after : Separator) : Section Pitch :=
      { (default : Section Pitch) with separators := ⟨before, after, after.barline⟩ }
    let t : Timeline := { (default : Timeline) with
      columns := #[default, default, default],
      voices := #[{ (default : Voice) with notes := #[
        col (bar {}) (bar { own := [.segno] }),
        col (bar { own := [.segno] }) (bar { own := [.jump .dalSegno] }),
        col (bar { own := [.jump .dalSegno] }) ⟨.terminal, {}, default⟩] }],
      jumpers := #[⟨0, 1, [1], 0, default⟩] }
    let p := ((Performer.read ⟨2, 120.0⟩ t false).run default).1
    t.LandsClear ∧ ∀ q ∈ p.passes, ∀ k ∈ q.indices,
      (∀ jumper ∈ t.jumpers, jumper.contains k = true → jumper.accepts q.number = true) ∧
        ∀ s ≤ k, ∀ seps, t.separatorsAt s = some seps → seps.before.attrs.iterations ≠ [] →
          k < Performer.voltaEnd t s → q.number ∈ seps.before.attrs.iterations := by
  intro bar col t p
  have ht : t.LandsClear := by decide
  exact ⟨ht, perform_plays_admitted ⟨2, 120.0⟩ t ht default⟩

/-- A `D.S.` to a segno inside a jumper that plays on the first pass only: the second pass plays
the jumper's second column, which the jumper keeps out of that pass. -/
theorem dal_segno_into_jumper_plays_outside_its_passes :
    let bar (a : BarlineAttrs) : Separator := ⟨.bar, a, default⟩
    let col (before after : Separator) : Section Pitch :=
      { (default : Section Pitch) with separators := ⟨before, after, after.barline⟩ }
    let jumper : Jumper := ⟨0, 2, [1], 0, default⟩
    let t : Timeline := { (default : Timeline) with
      columns := #[default, default, default],
      voices := #[{ (default : Voice) with notes := #[
        col (bar {}) (bar { own := [.segno] }),
        col (bar { own := [.segno] }) (bar { own := [.jump .dalSegno] }),
        col (bar { own := [.jump .dalSegno] }) ⟨.terminal, {}, default⟩] }],
      jumpers := #[jumper] }
    let pf : Performer := ⟨2, 120.0⟩
    let p := ((pf.read t false).run default).1
    passNumbers p.passes = [1, 2] ∧ p.passes.toList.map Pass.indices = [[0, 1], [1, 2]] ∧
      jumper ∈ t.jumpers ∧ jumper.contains 1 = true ∧ jumper.accepts 2 = false := by
  intro bar col jumper t pf p
  have hn : t.sectionCount = 3 := rfl
  have hback : t.jumpBack 1 .dalSegno = 1 := by decide
  have ht : t.RoadMap 1 .dalSegno .toEnd := by
    refine ⟨⟨fun _ => by decide, by simp [t, hn]⟩, fun j hj => ?_, by decide, by decide,
      fun c hc s hs => ?_, fun c s hc hs => ?_, trivial⟩
    · -- the jumper starts before the segno, where the second pass does not go
      rw [show t.jumpers = #[jumper] from rfl, Array.mem_singleton] at hj
      subst hj
      refine ⟨rfl, fun h => ?_⟩
      rw [hback] at h
      exact absurd h (by decide)
    · -- each column's separators are read off the timeline by unfolding it
      rw [hn] at hc
      interval_cases c <;> cases hs <;> exact ⟨rfl, rfl, rfl, rfl, rfl⟩
    · have hc : c < 2 := by omega
      interval_cases c <;> cases hs <;> rfl
  obtain ⟨hnum, -, -, hplays⟩ := (@walk_follows_road_map pf t 1 .dalSegno .toEnd ht
    (by decide)).read default
  refine ⟨hnum, by rw [hplays, hback]; rfl, Array.mem_singleton.2 rfl, rfl, rfl⟩

end Jianpu
