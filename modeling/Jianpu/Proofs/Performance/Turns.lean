import Jianpu.Performance.Walk
/-!
# The turns of a walk

`Performer.turn` is a case analysis, and every property of a walk is proved through it: past
the last column, or at a column without barlines, the walk ends; a section may be skipped;
else it is played, after a reset when its barline asks for one, and the barline after it is
followed. This file names those cases once, so that a property of the walk is a property
that each case keeps:

* `Performer.Turns`     the cases of one turn, and `turn_turns`: every turn is one of them;
* `Performer.Follows`   the cases of following the barline after a played section;
* `Turn.Lands`          a turn that goes on lands in one property, one that ends in another;
* `run_invariant`       what every turn keeps holds where the walk ends;
* `passes_turn`, `passes_run`   a property of the passes alone needs only what opening a
                        pass, renumbering an empty one and playing do to them;
* `Performer.Ends`      the walk's end, reached after finitely many turns (`run_ends`);
* `Pass.indices`, `playsOn`   the columns a pass plays, and every play of a list of passes as
                        its column and its pass's number, with what playing, opening a pass
                        and renumbering an empty one do to them.
-/

namespace Jianpu

def Pass.indices (p : Pass) : List Nat := p.sections.toList.map (·.index)

/-- Every section played on a list of passes, as its column and its pass's number, in
order. -/
def playsOn (ps : Array Pass) : List (Nat × Nat) :=
  ps.toList.flatMap fun p => p.indices.map (·, p.number)

def Turn.Lands (I F : Walk → Prop) : Turn → Prop
  | .more w => I w
  | .done w => F w

theorem Turn.Lands.imp {I F I' F' : Walk → Prop} {r : Turn} (h : r.Lands I F)
    (hI : ∀ w, I w → I' w) (hF : ∀ w, F w → F' w) : r.Lands I' F' := by
  cases r with
  | more w => exact hI w h
  | done w => exact hF w h

/-! ## The cases of a turn -/

namespace Performer

variable (pf : Performer) (t : Timeline) (flat : Bool)

/-- The walk ready to play at the cursor: reset first when the walk is performed and the
barline before the section asks for it. -/
def Prepared (s : Separators) (w w₁ : Walk) : Prop :=
  if !flat && s.before.attrs.hasReset then pf.reset w = some w₁ else w₁ = w

/-- The cases of following the barline after a section just played. -/
inductive Follows (s : Separators) : Walk → Turn → Prop
  /-- On to the next column. -/
  | next {w w₁ : Walk} : closing t flat s w = (.next, w₁) →
      Follows s w (.more { w₁ with cursor := w₁.cursor + 1 })
  /-- The walk ends after the section. -/
  | stop {w w₁ : Walk} : closing t flat s w = (.stop, w₁) → Follows s w (.done w₁)
  /-- A jump to `target` in a new pass. -/
  | jump {w w₁ w₂ : Walk} {target : Nat} : closing t flat s w = (.goto target, w₁) →
      pf.openPass w₁ (w₁.number + 1) = some w₂ →
      Follows s w (.more { w₂ with cursor := target })
  /-- A jump that finds the passes at their limit. -/
  | cutAtJump {w w₁ : Walk} {target : Nat} : closing t flat s w = (.goto target, w₁) →
      pf.openPass w₁ (w₁.number + 1) = none → Follows s w (.done (pf.cutShort t w₁))

/-- The cases of one turn of the walk. -/
inductive Turns : Walk → Turn → Prop
  /-- Past the last column the walk ends. -/
  | atEnd {w : Walk} : t.sectionCount ≤ w.cursor → Turns w (.done w)
  /-- A column without barlines ends the walk. -/
  | unmarked {w : Walk} : w.cursor < t.sectionCount → t.separatorsAt w.cursor = none →
      Turns w (.done w)
  /-- The section at the cursor is skipped. -/
  | skipped {w : Walk} {s : Separators} {target : Nat} : w.cursor < t.sectionCount →
      t.separatorsAt w.cursor = some s → flat = false → skipTarget t w s = some target →
      Turns w (.more { w with cursor := target })
  /-- A reset that finds the passes at their limit. -/
  | cutAtReset {w : Walk} {s : Separators} : w.cursor < t.sectionCount →
      t.separatorsAt w.cursor = some s → flat = false → skipTarget t w s = none →
      s.before.attrs.hasReset = true → pf.reset w = none → Turns w (.done (pf.cutShort t w))
  /-- The section is played, after a reset when asked, and its closing barline followed. -/
  | played {w w₁ : Walk} {s : Separators} {r : Turn} : w.cursor < t.sectionCount →
      t.separatorsAt w.cursor = some s → (flat = false → skipTarget t w s = none) →
      Prepared pf flat s w w₁ → Follows pf t flat s (play pf t flat w₁) r → Turns w r

theorem follow_follows (s : Separators) (w : Walk) :
    Follows pf t flat s w (pf.follow t flat s w) := by
  unfold follow
  generalize hc : closing t flat s w = c
  obtain ⟨step, w₁⟩ := c
  cases step with
  | next => exact .next hc
  | stop => exact .stop hc
  | goto target =>
    dsimp only
    cases ho : pf.openPass w₁ (w₁.number + 1) with
    | some w₂ => exact .jump hc ho
    | none => exact .cutAtJump hc ho

theorem advance_turns {w : Walk} {s : Separators} (hk : w.cursor < t.sectionCount)
    (hs : t.separatorsAt w.cursor = some s) (hskip : flat = false → skipTarget t w s = none) :
    Turns pf t flat w (pf.advance t flat s w) := by
  unfold advance
  split
  · rename_i hreset
    cases hr : pf.reset w with
    | some w₁ =>
      exact .played hk hs hskip (by rw [Prepared, if_pos hreset]; exact hr) (follow_follows ..)
    | none =>
      simp only [Bool.and_eq_true, Bool.not_eq_true'] at hreset
      exact .cutAtReset hk hs hreset.1 (hskip hreset.1) hreset.2 hr
  · rename_i hreset
    exact .played hk hs hskip (by rw [Prepared, if_neg hreset]) (follow_follows ..)

/-- Every turn is one of the cases of `Turns`. -/
theorem turn_turns (w : Walk) : Turns pf t flat w (pf.turn t flat w) := by
  unfold turn
  split
  · rename_i hk
    split
    · rename_i hs
      exact .unmarked hk hs
    · rename_i s hs
      split
      · rename_i hflat
        exact advance_turns pf t flat hk hs fun h => absurd hflat (by simp [h])
      · rename_i hflat
        split
        · rename_i target ht
          exact .skipped hk hs (by simpa using hflat) ht
        · rename_i ht
          exact advance_turns pf t flat hk hs fun _ => ht
  · rename_i hk
    exact .atEnd (Nat.le_of_not_lt hk)

/-! ## From turns to the whole walk -/

/-- **What every turn keeps holds where the walk ends.** A turn from a walk in `I` goes on in
`I` or ends in `F`. -/
theorem run_invariant {I F : Walk → Prop}
    (step : ∀ w r, I w → Turns pf t flat w r → r.Lands I F) :
    ∀ w, I w → F (pf.run t flat w) := by
  intro w
  fun_induction Performer.run pf t flat w with
  | case1 w w' h ih =>
    intro hw
    have hl := step w _ hw (turn_turns pf t flat w)
    rw [h] at hl
    exact ih hl
  | case2 w w' h =>
    intro hw
    have hl := step w _ hw (turn_turns pf t flat w)
    rw [h] at hl
    exact hl

/-- Where the walk from `w` ends: after turns that go on, a turn that ends. -/
inductive Ends : Walk → Walk → Prop
  | done {w w' : Walk} : pf.turn t flat w = .done w' → Ends w w'
  | more {w w' w'' : Walk} : pf.turn t flat w = .more w' → Ends w' w'' → Ends w w''

theorem run_ends (w : Walk) : Ends pf t flat w (pf.run t flat w) := by
  fun_induction Performer.run pf t flat w with
  | case1 w w' h ih => exact .more h ih
  | case2 w w' h => exact .done h

/-- Where a read's walk ends: cut short before its first pass could open, or at the end of
the turns from its first pass. -/
inductive Reads : Walk → Prop
  | cut : pf.openPass (start t) (if flat then 0 else 1) = none → Reads (pf.cutShort t (start t))
  | ends {w₀ w : Walk} : pf.openPass (start t) (if flat then 0 else 1) = some w₀ →
      Ends pf t flat w₀ w → Reads w

theorem walk_reads : Reads pf t flat (pf.walk t flat) := by
  unfold walk
  split
  · rename_i w₀ h
    exact .ends h (run_ends pf t flat w₀)
  · rename_i h
    exact .cut h

theorem read_run (j : Journal) :
    (pf.read t flat).run j =
      (⟨(pf.walk t flat).overflow, !(pf.walk t flat).conflicts.mergeSort.isEmpty,
        (pf.walk t flat).conflicts.mergeSort, (pf.walk t flat).passes⟩,
        { j with issues := j.issues ++ (pf.walk t flat).issues }) := rfl

theorem perform_run (j : Journal) :
    (pf.perform t).run j =
      ((⟨(pf.walk t false).overflow, !(pf.walk t false).conflicts.mergeSort.isEmpty,
        (pf.walk t false).conflicts.mergeSort, (pf.walk t true).passes ++ (pf.walk t false).passes⟩,
        (pf.walk t false).conflicts.mergeSort.foldl Timeline.markConflict t),
        { j with issues := j.issues ++ (pf.walk t true).issues ++ (pf.walk t false).issues }) := rfl

end Performer

/-! ## The plays of a list of passes -/

theorem modify_last_push {α : Type} (ys : Array α) (p : α) (f : α → α) :
    (ys.push p).modify ys.size f = ys.push (f p) := by
  apply Array.ext
  · simp
  · intro i h₁ h₂
    simp only [Array.getElem_modify, Array.getElem_push]
    grind

@[simp] theorem Pass.indices_push (p : Pass) (s : PlayedSection) :
    Pass.indices { p with sections := p.sections.push s } = p.indices ++ [s.index] := by
  simp [Pass.indices]

@[simp] theorem Pass.indices_empty (m : Nat) : Pass.indices ⟨m, #[]⟩ = [] := rfl

theorem playsOn_append (ps qs : Array Pass) : playsOn (ps ++ qs) = playsOn ps ++ playsOn qs := by
  simp [playsOn]

theorem playsOn_push (ps : Array Pass) (p : Pass) :
    playsOn (ps.push p) = playsOn ps ++ p.indices.map (·, p.number) := by
  simp [playsOn]

@[simp] theorem playsOn_push_empty (ps : Array Pass) (m : Nat) :
    playsOn (ps.push ⟨m, #[]⟩) = playsOn ps := by
  simp [playsOn_push]

theorem playsOn_renumber {ps ys : Array Pass} {p : Pass} (hps : ps = ys.push p)
    (hp : p.sections = #[]) (m : Nat) : playsOn (ys.push { p with number := m }) = playsOn ps := by
  subst hps
  simp [playsOn_push, Pass.indices, hp]

theorem playsOn_addLast {ps ys : Array Pass} {p : Pass} (hps : ps = ys.push p)
    (s : PlayedSection) :
    playsOn (ps.modify (ps.size - 1) fun q => { q with sections := q.sections.push s }) =
      playsOn ps ++ [(s.index, p.number)] := by
  subst hps
  rw [Array.size_push, Nat.add_sub_cancel, modify_last_push, playsOn_push, playsOn_push]
  simp

theorem numbers_modify_sections (ps : Array Pass) (i : Nat) (s : PlayedSection) :
    (ps.modify i fun q => { q with sections := q.sections.push s }).toList.map (·.number) =
      ps.toList.map (·.number) := by
  apply List.ext_getElem
  · simp
  · intro n h₁ h₂
    simp only [Array.toList_modify, List.getElem_map, List.getElem_modify]
    split <;> rfl

/-! ## What playing a section does to the passes -/

namespace Walk

theorem number_eq {w : Walk} {p : Pass} (hp : w.passes.back? = some p) : w.number = p.number := by
  simp [number, hp]

theorem number_congr {w w' : Walk} (h : w'.passes = w.passes) : w'.number = w.number := by
  simp [number, h]

end Walk

namespace Performer

variable {pf : Performer} {t : Timeline} {flat : Bool}

theorem play_passes (w : Walk) :
    (pf.play t flat w).passes = w.passes.modify (w.passes.size - 1) (fun q =>
      { q with sections :=
        q.sections.push (pf.buildSection t flat (tally t w w.cursor w.number) w.cursor w.number) }) := by
  simp [play]

@[simp] theorem buildSection_index (w : Walk) (k m : Nat) :
    (pf.buildSection t flat w k m).index = k := rfl

theorem playsOn_play {w : Walk} {ys : Array Pass} {p : Pass} (hps : w.passes = ys.push p) :
    playsOn (pf.play t flat w).passes = playsOn w.passes ++ [(w.cursor, p.number)] := by
  rw [play_passes, playsOn_addLast hps]
  simp

theorem numbers_play (w : Walk) :
    (pf.play t flat w).passes.toList.map (·.number) = w.passes.toList.map (·.number) := by
  rw [play_passes, numbers_modify_sections]

theorem play_passes_push {w : Walk} {ys : Array Pass} {p : Pass} (hps : w.passes = ys.push p) :
    ∃ s : PlayedSection, s.index = w.cursor ∧
      (pf.play t flat w).passes = ys.push { p with sections := p.sections.push s } := by
  refine ⟨pf.buildSection t flat (tally t w w.cursor w.number) w.cursor w.number, rfl, ?_⟩
  rw [play_passes, hps, Array.size_push, Nat.add_sub_cancel, modify_last_push]

@[simp] theorem play_overflow (w : Walk) : (pf.play t flat w).overflow = w.overflow := by
  simp [play]

@[simp] theorem closing_passes (s : Separators) (w : Walk) :
    (closing t flat s w).2.passes = w.passes := by
  unfold closing
  split
  · rfl
  · exact after_passes ..

theorem passes_of_closing {s : Separators} {w w₁ : Walk} {st : Step}
    (hc : closing t flat s w = (st, w₁)) : w₁.passes = w.passes := by
  simpa [hc] using @closing_passes t flat s w

theorem closing_walk (s : Separators) (w : Walk) :
    (closing t flat s w).2 = w ∨ ∃ b, (closing t flat s w).2 = w.markUsed w.cursor b := by
  unfold closing
  split
  · exact .inl rfl
  · exact after_walk ..

theorem closing_cases {s : Separators} {w w₁ : Walk} {st : Step}
    (hc : closing t flat s w = (st, w₁)) : w₁ = w ∨ ∃ b, w₁ = w.markUsed w.cursor b := by
  have hw : w₁ = (closing t flat s w).2 := by rw [hc]
  rw [hw]
  exact closing_walk s w

theorem cursor_of_closing {s : Separators} {w w₁ : Walk} {st : Step}
    (hc : closing t flat s w = (st, w₁)) : w₁.cursor = w.cursor := by
  rcases closing_cases hc with rfl | ⟨b, rfl⟩ <;> rfl

/-- What a reset does: renumber the last pass, still empty, as 1, or open a pass numbered 1;
nothing else of the walk changes. -/
theorem reset_cases {w w₁ : Walk} (h : pf.reset w = some w₁) :
    (∃ (ys : Array Pass) (p : Pass), w.passes = ys.push p ∧ p.sections = #[] ∧
      w₁ = w.mapPasses fun _ => ys.push { p with number := 1 }) ∨
    (w.passes.size < pf.limit ∧ w₁ = w.mapPasses (·.push ⟨1, #[]⟩)) := by
  unfold reset at h
  split at h
  · rename_i p hp
    obtain ⟨ys, hys⟩ := Array.back?_eq_some_iff.1 hp
    split at h
    · rename_i hempty
      simp only [Option.some.injEq] at h
      refine .inl ⟨ys, p, hys, by simpa using hempty, ?_⟩
      rw [← h]
      simp only [Walk.mapPasses, hys, Array.pop_push]
    · exact .inr (openPass_eq_some.1 h)
  · exact .inr (openPass_eq_some.1 h)

/-- What preparing a section does: nothing, or a reset, which renumbers the last pass, still
empty, as 1 or opens a pass numbered 1 below the limit. -/
theorem prepared_cases {s : Separators} {w w₁ : Walk} (hp : Prepared pf flat s w w₁) :
    w₁ = w ∨
    (∃ (ys : Array Pass) (p : Pass), w.passes = ys.push p ∧ p.sections = #[] ∧
      w₁ = w.mapPasses fun _ => ys.push { p with number := 1 }) ∨
    (w.passes.size < pf.limit ∧ w₁ = w.mapPasses (·.push ⟨1, #[]⟩)) := by
  unfold Prepared at hp
  split at hp
  · exact .inr (reset_cases hp)
  · exact .inl hp

theorem prepared_cursor {s : Separators} {w w₁ : Walk} (hp : Prepared pf flat s w w₁) :
    w₁.cursor = w.cursor := by
  rcases prepared_cases hp with rfl | ⟨_, _, -, -, rfl⟩ | ⟨-, rfl⟩ <;> rfl

variable (pf t flat) in
/-- **What opening a pass, renumbering an empty one and playing keep, every turn keeps.** A
skip, a barline followed and the walk cut short leave the passes as they are. -/
theorem passes_turn {Q : Array Pass → Prop}
    (hopen : ∀ (ps : Array Pass) (m : Nat), Q ps → Q (ps.push ⟨m, #[]⟩))
    (hrenumber : ∀ (ys : Array Pass) (p : Pass) (m : Nat), Q (ys.push p) → p.sections = #[] →
      Q (ys.push { p with number := m }))
    (hplay : ∀ w, Q w.passes → Q (pf.play t flat w).passes)
    {w : Walk} {r : Turn} (h : Q w.passes) (ht : Turns pf t flat w r) :
    r.Lands (Q ·.passes) (Q ·.passes) := by
  cases ht with
  | atEnd _ => exact h
  | unmarked _ _ => exact h
  | skipped _ _ _ _ => exact h
  | cutAtReset _ _ _ _ _ _ => exact h
  | @played w₁ s r _ _ _ hprep hfollow =>
    -- a reset renumbers the last pass, still empty, or opens one
    have h₁ : Q w₁.passes := by
      rcases prepared_cases hprep with rfl | ⟨ys, p, hys, hempty, rfl⟩ | ⟨-, rfl⟩
      · exact h
      · exact hrenumber ys p 1 (hys ▸ h) hempty
      · exact hopen _ 1 h
    have h₂ := hplay w₁ h₁
    -- following the barline keeps the passes; a jump opens one
    cases hfollow with
    | next hc => exact (passes_of_closing hc).symm ▸ h₂
    | stop hc =>
      show Q _
      rw [passes_of_closing hc]
      exact h₂
    | jump hc ho =>
      obtain ⟨-, rfl⟩ := openPass_eq_some.1 ho
      exact hopen _ _ ((passes_of_closing hc).symm ▸ h₂)
    | cutAtJump hc _ =>
      show Q (pf.cutShort t _).passes
      rw [cutShort_passes, passes_of_closing hc]
      exact h₂

variable (pf t flat) in
/-- A property of the passes that opening a pass, renumbering an empty one and playing keep
holds where the walk ends. -/
theorem passes_run {Q : Array Pass → Prop}
    (hopen : ∀ (ps : Array Pass) (m : Nat), Q ps → Q (ps.push ⟨m, #[]⟩))
    (hrenumber : ∀ (ys : Array Pass) (p : Pass) (m : Nat), Q (ys.push p) → p.sections = #[] →
      Q (ys.push { p with number := m }))
    (hplay : ∀ w, Q w.passes → Q (pf.play t flat w).passes) :
    ∀ w, Q w.passes → Q (pf.run t flat w).passes :=
  run_invariant pf t flat fun _ _ hw ht => passes_turn pf t flat hopen hrenumber hplay hw ht

end Performer

end Jianpu
