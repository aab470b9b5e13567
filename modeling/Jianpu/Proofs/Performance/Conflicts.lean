import Jianpu.Proofs.Performance.Bounds
import Jianpu.Proofs.Performance.PassNumbers

/-!
# Sections played twice under one pass number

The performed walk notes every play as its column and its pass number. A play that repeats a
pair already noted makes its column a conflict: the column is listed once, in the order found,
with one warning raised at the play that first repeats a number. The performance reports the
list sorted, and marks the sections at those columns.

* `Issue.repeatsColumn` — the issue warns that a column was played twice in one pass.
* `FirstRepeat` — the play of a column that first repeats a pass number.
* `Performer.Tally` — what the walk has noted of its plays.
* `Timeline.markedAt` — the article with the sections at some columns marked.

Main statement: `perform_conflicts_exact`.
-/

namespace Jianpu

/-- The issue warns that column `k`, counted from 0, was played twice in one pass. -/
def Issue.repeatsColumn (k : Nat) (i : Issue) : Bool :=
  match i.problem with
  | .repeatConflict index _ => index == k + 1
  | _ => false

theorem Issue.repeatsColumn_of_ne {i : Issue} (h : ∀ index m, i.problem ≠ .repeatConflict index m)
    (k : Nat) : i.repeatsColumn k = false := by
  unfold Issue.repeatsColumn
  split
  · rename_i index m hp
    exact absurd hp (h index m)
  · rfl

theorem Issue.countP_repeatsColumn {is : Array Issue}
    (h : ∀ i ∈ is, ∀ index m, i.problem ≠ .repeatConflict index m) (k : Nat) :
    is.toList.countP (Issue.repeatsColumn k) = 0 :=
  List.countP_eq_zero.2 fun i hi => by simp [Issue.repeatsColumn_of_ne (h i (Array.mem_def.2 hi))]

/-- In the plays `P`, as column and pass number in the order played, the play `(k, m)` is the
first of column `k` to repeat a pass number: an earlier play of `k` had the number `m`, and
before it no play of `k` repeated one. -/
def FirstRepeat (P : List (Nat × Nat)) (k m : Nat) : Prop :=
  ∃ P₁ P₂, P = P₁ ++ (k, m) :: P₂ ∧ (k, m) ∈ P₁ ∧ ∀ m', P₁.count (k, m') ≤ 1

theorem FirstRepeat.append {P : List (Nat × Nat)} {k m : Nat} (h : FirstRepeat P k m)
    (Q : List (Nat × Nat)) : FirstRepeat (P ++ Q) k m := by
  obtain ⟨P₁, P₂, rfl, hmem, hone⟩ := h
  exact ⟨P₁, P₂ ++ Q, by simp, hmem, hone⟩

theorem two_le_count_append {P : List (Nat × Nat)} {x y : Nat × Nat} :
    2 ≤ (P ++ [y]).count x ↔ 2 ≤ P.count x ∨ (x = y ∧ y ∈ P) := by
  rw [List.count_append, List.count_singleton]
  by_cases hxy : x = y
  · subst hxy
    rw [← List.count_pos_iff]
    simp only [beq_self_eq_true, if_true, true_and]
    omega
  · have hyx : (y == x) = false := beq_false_of_ne (Ne.symm hxy)
    simp only [hyx, Bool.false_eq_true, if_false, hxy, false_and, or_false]
    omega

def FlatPasses (ps : Array Pass) : Prop := ps.size ≤ 1 ∧ ∀ q ∈ ps, q.number = 0

namespace Performer

variable (t : Timeline)

/-- What the walk has noted of the plays `P` so far: the pairs played, the columns played
twice under one number, each listed once, and one warning for each of those, raised at the
play that first repeated a number. -/
structure Tally (P : List (Nat × Nat)) (w : Walk) : Prop where
  /-- The pairs noted as played are those of `P`. -/
  played : ∀ x, w.played.contains x = true ↔ x ∈ P
  /-- No column is listed twice. -/
  nodup : w.conflicts.Nodup
  /-- The columns listed are those played twice under one number. -/
  conflicts : ∀ k, k ∈ w.conflicts ↔ ∃ m, 2 ≤ P.count (k, m)
  /-- One warning for each column listed, and none for another. -/
  warned : ∀ k, w.issues.toList.countP (Issue.repeatsColumn k) = if k ∈ w.conflicts then 1 else 0
  /-- Each warning names a column at its place, and the number it first repeated. -/
  placed : ∀ i ∈ w.issues, ∀ index m, i.problem = .repeatConflict index m →
    ∃ k, index = k + 1 ∧ i.severity = .warning ∧ (i.line, i.index) = t.location k ∧
      FirstRepeat P k m

variable {t}

namespace Tally

variable {P : List (Nat × Nat)} {w : Walk}

/-- A walk that has noted the same plays and conflicts, and raised only issues that are no
repeat warnings, keeps the tally. -/
theorem frame {w' : Walk} (h : Tally t P w) (hp : w'.played = w.played)
    (hc : w'.conflicts = w.conflicts) (extra : Array Issue) (hi : w'.issues = w.issues ++ extra)
    (hq : ∀ i ∈ extra, ∀ index m, i.problem ≠ .repeatConflict index m) : Tally t P w' where
  played := hp ▸ h.played
  nodup := hc ▸ h.nodup
  conflicts := hc ▸ h.conflicts
  warned k := by
    rw [hi, Array.toList_append, List.countP_append, Issue.countP_repeatsColumn hq, Nat.add_zero, hc]
    exact h.warned k
  placed i hmem index m hprob := by
    rw [hi, Array.mem_append] at hmem
    rcases hmem with hmem | hmem
    · exact h.placed i hmem index m hprob
    · exact absurd hprob (hq i hmem index m)

theorem congr {w' : Walk} (h : Tally t P w) (hp : w'.played = w.played)
    (hc : w'.conflicts = w.conflicts) (hi : w'.issues = w.issues) : Tally t P w' :=
  h.frame hp hc #[] (by simpa using hi) (by simp)

theorem raise {i : Issue} (h : Tally t P w) (hi : ∀ index m, i.problem ≠ .repeatConflict index m) :
    Tally t P (w.raise i) :=
  h.frame rfl rfl #[i] (by simp) (by simpa using hi)

theorem markPlayed {k m : Nat} (h : Tally t P w) (hnew : (k, m) ∉ P) :
    Tally t (P ++ [(k, m)]) (w.markPlayed k m) where
  played x := by
    rw [Walk.markPlayed_played, Std.HashSet.contains_insert, Bool.or_eq_true, h.played,
      List.mem_append, List.mem_singleton, beq_iff_eq, eq_comm, or_comm]
  nodup := h.nodup
  conflicts k' := by
    rw [Walk.markPlayed_conflicts, h.conflicts]
    refine exists_congr fun m' => ?_
    rw [two_le_count_append]
    exact ⟨.inl, fun h' => h'.resolve_right fun ⟨_, hmem⟩ => hnew hmem⟩
  warned := h.warned
  placed i hi index m' hp := by
    obtain ⟨k', hidx, hsev, hloc, hfirst⟩ := h.placed i hi index m' hp
    exact ⟨k', hidx, hsev, hloc, hfirst.append _⟩

theorem conflicts_repeat {k m : Nat} (h : Tally t P w) (hmem : (k, m) ∈ P) (k' : Nat) :
    (∃ m', 2 ≤ (P ++ [(k, m)]).count (k', m')) ↔ k' ∈ w.conflicts ∨ k' = k := by
  simp only [two_le_count_append, h.conflicts]
  constructor
  · rintro ⟨m', hm' | ⟨heq, -⟩⟩
    · exact .inl ⟨m', hm'⟩
    · exact .inr (Prod.mk.inj heq).1
  · rintro (⟨m', hm'⟩ | rfl)
    · exact ⟨m', .inl hm'⟩
    · exact ⟨m, .inr ⟨rfl, hmem⟩⟩

theorem repeatListed {k m : Nat} (h : Tally t P w) (hmem : (k, m) ∈ P) (hk : k ∈ w.conflicts) :
    Tally t (P ++ [(k, m)]) w where
  played x := by
    rw [h.played, List.mem_append, List.mem_singleton]
    exact ⟨.inl, fun hx => hx.elim id fun hx => hx ▸ hmem⟩
  nodup := h.nodup
  conflicts k' := by
    rw [h.conflicts_repeat hmem]
    exact ⟨.inl, fun hk' => hk'.elim id fun hk' => hk' ▸ hk⟩
  warned := h.warned
  placed i hi index m' hp := by
    obtain ⟨k', hidx, hsev, hloc, hfirst⟩ := h.placed i hi index m' hp
    exact ⟨k', hidx, hsev, hloc, hfirst.append _⟩

/-- A column first played twice under one number is listed, and warned of at its place. -/
theorem repeatNew {k m : Nat} (h : Tally t P w) (hmem : (k, m) ∈ P) (hk : k ∉ w.conflicts) :
    Tally t (P ++ [(k, m)]) ({ w with conflicts := w.conflicts ++ [k] }.raise
      ⟨(t.location k).1, (t.location k).2, .warning, .repeatConflict (k + 1) m⟩) where
  played x := by
    rw [Walk.raise_played, h.played, List.mem_append, List.mem_singleton]
    exact ⟨.inl, fun hx => hx.elim id fun hx => hx ▸ hmem⟩
  nodup := by
    refine List.nodup_append.2 ⟨h.nodup, by simp, ?_⟩
    rintro a ha b hb rfl
    rw [List.mem_singleton] at hb
    exact hk (hb ▸ ha)
  conflicts k' := by
    rw [Walk.raise_conflicts, h.conflicts_repeat hmem, List.mem_append, List.mem_singleton]
  warned k' := by
    simp only [Walk.raise_issues, Walk.raise_conflicts, Array.toList_push, List.countP_append,
      h.warned, List.mem_append, List.mem_singleton]
    by_cases hkk : k' = k
    · subst hkk
      simp [Issue.repeatsColumn, hk]
    · have hne : (k + 1 == k' + 1) = false := by simpa using Ne.symm hkk
      simp [Issue.repeatsColumn, hne, hkk]
  placed i hi index m' hp := by
    rw [Walk.raise_issues, Array.mem_push] at hi
    rcases hi with hi | rfl
    · obtain ⟨k', hidx, hsev, hloc, hfirst⟩ := h.placed i hi index m' hp
      exact ⟨k', hidx, hsev, hloc, hfirst.append _⟩
    · -- the warning just raised: `k` had no number repeated before this play
      obtain ⟨rfl, rfl⟩ := Problem.repeatConflict.inj hp
      refine ⟨k, rfl, rfl, rfl, P, [], rfl, hmem, fun m'' => ?_⟩
      have hnot : ¬ 2 ≤ P.count (k, m'') := fun h2 => hk ((h.conflicts k).2 ⟨m'', h2⟩)
      omega

theorem tallied (h : Tally t P w) (k m : Nat) : Tally t (P ++ [(k, m)]) (tally t w k m) := by
  unfold tally
  split
  · rename_i hplayed
    have hmem : (k, m) ∈ P := (h.played _).1 hplayed
    split
    · rename_i hk
      exact h.repeatListed hmem (by simpa using hk)
    · rename_i hk
      exact h.repeatNew hmem (by simpa using hk)
  · rename_i hfresh
    exact h.markPlayed fun hmem => hfresh ((h.played _).2 hmem)

theorem visit {flat : Bool} {k : Nat} {s : PlayedSection} (h : Tally t P w) :
    Tally t P (visit t flat w k s) := by
  unfold Performer.visit
  split
  · exact h
  · split
    · rename_i i hi
      have hne : ∀ index m, i.problem ≠ .repeatConflict index m := by
        intro index m hp
        rcases mismatch_problem hi with ⟨_, hp'⟩ | ⟨_, hp'⟩ <;> rw [hp'] at hp <;> cases hp
      have hv : Tally t P (w.markVisited k) := h.congr rfl rfl rfl
      exact hv.raise hne
    · exact h.congr rfl rfl rfl

theorem record (h : Tally t P w) (s : PlayedSection) : Tally t P (w.record s) :=
  h.congr rfl rfl rfl

theorem play {pf : Performer} {flat : Bool} (h : Tally t (playsOn w.passes) w)
    (hne : 0 < w.passes.size) :
    Tally t (playsOn (pf.play t flat w).passes) (pf.play t flat w) := by
  obtain ⟨p, hp⟩ := Option.isSome_iff_exists.1
    (Array.back?_isSome.2 (Array.ne_empty_of_size_pos hne))
  obtain ⟨ys, hys⟩ := Array.back?_eq_some_iff.1 hp
  rw [playsOn_play hys, ← Walk.number_eq hp]
  unfold Performer.play
  exact ((h.tallied _ _).visit).record _

theorem cutShort {pf : Performer} (h : Tally t P w) : Tally t P (pf.cutShort t w) := by
  have hr : Tally t P (w.raise ⟨(t.location w.cursor).1, (t.location w.cursor).2, .error,
      .repeatOverflow pf.limit⟩) := h.raise fun _ _ hp => by cases hp
  exact hr.congr rfl rfl rfl

theorem closing {flat : Bool} {s : Separators} {st : Step} {w' : Walk} (h : Tally t P w)
    (hc : Performer.closing t flat s w = (st, w')) : Tally t P w' := by
  rcases closing_cases hc with rfl | ⟨b, rfl⟩
  · exact h
  · exact h.congr rfl rfl rfl

theorem prepared {pf : Performer} {flat : Bool} {s : Separators} {w₁ : Walk}
    (h : Tally t (playsOn w.passes) w) (hne : 0 < w.passes.size) (hp : Prepared pf flat s w w₁) :
    Tally t (playsOn w₁.passes) w₁ ∧ 0 < w₁.passes.size := by
  rcases prepared_cases hp with rfl | ⟨ys, p, hys, hempty, rfl⟩ | ⟨-, rfl⟩
  · exact ⟨h, hne⟩
  · refine ⟨?_, by simp⟩
    rw [Walk.mapPasses_passes, playsOn_renumber hys hempty]
    exact h.congr rfl rfl rfl
  · refine ⟨?_, by simp⟩
    rw [Walk.mapPasses_passes, playsOn_push_empty]
    exact h.congr rfl rfl rfl

/-- **Every turn keeps the tally of the plays**, with a pass open while the walk goes on. -/
theorem turn {pf : Performer} {flat : Bool} {r : Turn}
    (h : Tally t (playsOn w.passes) w ∧ 0 < w.passes.size) (ht : Turns pf t flat w r) :
    r.Lands (fun w => Tally t (playsOn w.passes) w ∧ 0 < w.passes.size)
      (fun w => Tally t (playsOn w.passes) w) := by
  obtain ⟨h, hne⟩ := h
  cases ht with
  | atEnd _ => exact h
  | unmarked _ _ => exact h
  | skipped _ _ _ _ => exact ⟨h.congr rfl rfl rfl, hne⟩
  | cutAtReset _ _ _ _ _ _ => exact h.cutShort
  | @played w₁ s r _ _ _ hprep hfollow =>
    obtain ⟨h₁, hne₁⟩ := h.prepared hne hprep
    have h₂ : Tally t (playsOn (pf.play t flat w₁).passes) (pf.play t flat w₁) := h₁.play hne₁
    have hne₂ : 0 < (pf.play t flat w₁).passes.size := by simpa using hne₁
    -- after the barline the plays are those of the section just played
    have hclose : ∀ {st : Step} {w' : Walk}, Performer.closing t flat s (pf.play t flat w₁) = (st, w') →
        Tally t (playsOn w'.passes) w' ∧ 0 < w'.passes.size := fun hc => by
      rw [passes_of_closing hc]
      exact ⟨h₂.closing hc, hne₂⟩
    cases hfollow with
    | next hc =>
      obtain ⟨h₃, hne₃⟩ := hclose hc
      exact ⟨h₃.congr rfl rfl rfl, hne₃⟩
    | stop hc => exact (hclose hc).1
    | jump hc ho =>
      obtain ⟨h₃, -⟩ := hclose hc
      obtain ⟨-, rfl⟩ := openPass_eq_some.1 ho
      refine ⟨?_, by simp⟩
      simp only [Walk.mapPasses_passes, playsOn_push_empty]
      exact h₃.congr rfl rfl rfl
    | cutAtJump hc _ => exact (hclose hc).1.cutShort

theorem start : Tally t [] (start t) where
  played x := by simp
  nodup := List.nodup_nil
  conflicts k := by simp
  warned k := by simp
  placed i hi := by simp at hi

end Tally

theorem walk_tally (pf : Performer) (t : Timeline) (flat : Bool) :
    Tally t (playsOn (pf.walk t flat).passes) (pf.walk t flat) := by
  unfold walk
  split
  · rename_i w₀ h
    obtain ⟨-, rfl⟩ := openPass_eq_some.1 h
    refine run_invariant pf t flat (fun _ _ hw ht => Tally.turn hw ht) _ ⟨?_, by simp⟩
    rw [Walk.mapPasses_passes, start_passes, playsOn_push_empty]
    exact Tally.start.congr rfl rfl rfl
  · exact Tally.start.cutShort

/-! ## The walk straight through, before the performed walk -/

theorem flatPasses_turn {pf : Performer} {t : Timeline} {w : Walk} {r : Turn}
    (h : FlatPasses w.passes) (ht : Turns pf t true w r) :
    r.Lands (fun w => FlatPasses w.passes) (fun w => FlatPasses w.passes) := by
  rcases turns_straight ht with ⟨rfl, -⟩ | ⟨-, rfl⟩
  · exact h
  · -- playing changes no number
    refine ⟨by simpa using h.1, fun q hq => ?_⟩
    have hnum : q.number ∈ passNumbers (pf.play t true w).passes :=
      List.mem_map_of_mem (Array.mem_def.1 hq)
    rw [passNumbers, numbers_play] at hnum
    obtain ⟨q', hq', hqq⟩ := List.mem_map.1 hnum
    rw [← hqq]
    exact h.2 q' (Array.mem_def.2 hq')

theorem walk_flatPasses (pf : Performer) (t : Timeline) : FlatPasses (pf.walk t true).passes := by
  unfold walk
  split
  · rename_i w₀ h
    obtain ⟨-, rfl⟩ := openPass_eq_some.1 h
    refine run_invariant pf t true (fun _ _ hw ht => flatPasses_turn hw ht) _ ⟨by simp, ?_⟩
    simp
  · exact ⟨by simp, by simp⟩

theorem plays_of_flatPasses {ps : Array Pass} (h : FlatPasses ps)
    (hinc : ∀ q ∈ ps, q.indices.Pairwise (· < ·)) :
    (playsOn ps).Nodup ∧ ∀ x ∈ playsOn ps, x.2 = 0 := by
  refine ⟨?_, fun x hx => ?_⟩
  · rcases ps with ⟨_ | ⟨q, _ | ⟨q', l⟩⟩⟩
    · simp [playsOn]
    · have hq := hinc q (by simp)
      simp only [playsOn, List.flatMap_cons, List.flatMap_nil, List.append_nil]
      exact List.Nodup.map (fun _ _ hab => (Prod.mk.inj hab).1) (hq.imp Nat.ne_of_lt)
    · have hsize := h.1
      simp at hsize
  · simp only [playsOn, List.mem_flatMap, List.mem_map] at hx
    obtain ⟨q, hq, k, -, rfl⟩ := hx
    exact h.2 q (Array.mem_def.2 hq)

theorem flat_plays (pf : Performer) (t : Timeline) :
    (playsOn (pf.walk t true).passes).Nodup ∧ ∀ x ∈ playsOn (pf.walk t true).passes, x.2 = 0 :=
  plays_of_flatPasses (walk_flatPasses pf t) (walk_settled : Settled pf t (pf.walk t true)).increasing

theorem flat_quiet (pf : Performer) (t : Timeline) :
    ∀ i ∈ (pf.walk t true).issues, ∀ index m, i.problem ≠ .repeatConflict index m := by
  intro i hi index m hp
  obtain ⟨k, -, -, -, P₁, P₂, hP, hmem, -⟩ := (walk_tally pf t true).placed i hi index m hp
  -- the pair the warning names would be played twice
  have htwice : 2 ≤ (playsOn (pf.walk t true).passes).count (k, m) := by
    have hpos := List.count_pos_iff.2 hmem
    rw [hP, List.count_append, List.count_cons_self]
    omega
  have hone := List.nodup_iff_count_le_one.1 (flat_plays pf t).1 (k, m)
  omega

theorem performed_plays_pos (pf : Performer) (t : Timeline) :
    ∀ x ∈ playsOn (pf.walk t false).passes, 1 ≤ x.2 := by
  intro x hx
  simp only [playsOn, List.mem_flatMap, List.mem_map] at hx
  obtain ⟨q, hq, k, -, rfl⟩ := hx
  by_cases hlimit : 0 < pf.limit
  · exact (walk_numbered hlimit : Numbered (passNumbers (pf.walk t false).passes)).one_le
      q.number (List.mem_map_of_mem hq)
  · -- no pass opens at all
    have hnone : pf.openPass (start t) 1 = none := by simp [openPass, hlimit]
    simp [walk, hnone] at hq

end Performer

/-! ## Plays straight through, then performed -/

section Flat

variable {F Q : List (Nat × Nat)} (hF : F.Nodup) (hF0 : ∀ x ∈ F, x.2 = 0)
include hF hF0

/-- Plays once each under number 0, then plays under numbers of at least 1: no pair is in
both, and none is twice in the first. -/
theorem count_flat (hQ : ∀ x ∈ Q, 1 ≤ x.2) (x : Nat × Nat) :
    F.count x ≤ 1 ∧ (F.count x = 0 ∨ Q.count x = 0) := by
  refine ⟨List.nodup_iff_count_le_one.1 hF x, ?_⟩
  by_cases hx : x ∈ F
  · refine .inr (List.count_eq_zero.2 fun hxQ => ?_)
    have h1 := hQ x hxQ
    have h0 := hF0 x hx
    omega
  · exact .inl (List.count_eq_zero.2 hx)

theorem two_le_count_flat (hQ : ∀ x ∈ Q, 1 ≤ x.2) (x : Nat × Nat) :
    2 ≤ (F ++ Q).count x ↔ 2 ≤ Q.count x := by
  have h := count_flat hF hF0 hQ x
  rw [List.count_append]
  omega

theorem FirstRepeat.flat {k m : Nat} (h : FirstRepeat Q k m) (hQ : ∀ x ∈ Q, 1 ≤ x.2) :
    FirstRepeat (F ++ Q) k m := by
  obtain ⟨P₁, P₂, rfl, hmem, hone⟩ := h
  have hQ₁ : ∀ x ∈ P₁, 1 ≤ x.2 := fun x hx => hQ x (List.mem_append_left _ hx)
  refine ⟨F ++ P₁, P₂, by simp, List.mem_append_right _ hmem, fun m' => ?_⟩
  have h := count_flat hF hF0 hQ₁ (k, m')
  have h₁ := hone m'
  rw [List.count_append]
  omega

end Flat

/-! ## Marking the sections of the conflicts -/

def Section.markAt {α : Type} (ks : List Nat) (row : Array (Section α)) : Array (Section α) :=
  row.mapIdx fun k s => if k ∈ ks then s.markConflict else s

theorem Section.markAt_nil {α : Type} :
    (Section.markAt [] : Array (Section α) → Array (Section α)) = id := by
  funext row
  ext i h₁ h₂
  · simp [Section.markAt]
  · simp [Section.markAt]

theorem Section.markAt_modify {α : Type} (k : Nat) (ks : List Nat) (row : Array (Section α)) :
    Section.markAt ks (row.modify k Section.markConflict) = Section.markAt (k :: ks) row := by
  ext i h₁ h₂
  · simp [Section.markAt]
  · simp only [Section.markAt, Array.getElem_mapIdx, Array.getElem_modify, List.mem_cons]
    by_cases hk : i = k
    · subst hk
      simp [Section.markConflict]
    · have hk' : k ≠ i := Ne.symm hk
      simp [hk, hk']

/-- The article with every voice's section at each column of `ks` marked as played twice in
one pass, verse melodies included, and nothing else changed. -/
def Timeline.markedAt (t : Timeline) (ks : List Nat) : Timeline :=
  { t with voices := t.voices.map fun v =>
    { v with
      notes := Section.markAt ks v.notes
      verses := v.verses.map fun l => { l with substitute := l.substitute.map (Section.markAt ks) } } }

theorem Timeline.markedAt_nil (t : Timeline) : t.markedAt [] = t := by
  simp [Timeline.markedAt, Section.markAt_nil]

theorem Timeline.markConflict_markedAt (t : Timeline) (k : Nat) (ks : List Nat) :
    (t.markConflict k).markedAt ks = t.markedAt (k :: ks) := by
  simp [Timeline.markedAt, Timeline.markConflict, Function.comp_def, Section.markAt_modify]

theorem Timeline.foldl_markConflict (ks : List Nat) (t : Timeline) :
    ks.foldl Timeline.markConflict t = t.markedAt ks := by
  induction ks generalizing t with
  | nil => exact (Timeline.markedAt_nil t).symm
  | cons k ks ih => rw [List.foldl_cons, ih, Timeline.markConflict_markedAt]

/-! ## The conflicts of a performance -/

namespace Performer

/-- **Conflicts are found exactly.** A performance lists, in increasing order and once each,
exactly the columns played at least twice under one pass number, and reports a conflict
exactly when the list is not empty. Its walks raise one warning for each such column and none
for another, each at the column's place and naming the number that the column first repeated.
The article comes back with the sections at those columns marked, in every voice and verse
melody, and nothing else changed. -/
theorem perform_conflicts_exact (pf : Performer) (t : Timeline) (j : Journal) :
    let ((p, t'), j') := (pf.perform t).run j
    p.conflictedSections.Pairwise (· < ·) ∧
    (∀ k, k ∈ p.conflictedSections ↔ ∃ m, 2 ≤ (playsOn p.passes).count (k, m)) ∧
    (p.conflict = true ↔ p.conflictedSections ≠ []) ∧
    (∃ raised : Array Issue, j'.issues = j.issues ++ raised ∧
      (∀ k, raised.toList.countP (Issue.repeatsColumn k) =
        if k ∈ p.conflictedSections then 1 else 0) ∧
      ∀ i ∈ raised, ∀ index m, i.problem = .repeatConflict index m →
        ∃ k, index = k + 1 ∧ i.severity = .warning ∧ (i.line, i.index) = t.location k ∧
          FirstRepeat (playsOn p.passes) k m) ∧
    t' = t.markedAt p.conflictedSections := by
  rw [perform_run]
  have hW := walk_tally pf t false
  obtain ⟨hFnodup, hF0⟩ := flat_plays pf t
  have hQ := performed_plays_pos pf t
  refine ⟨?_, fun k => ?_, by simp,
    ⟨(pf.walk t true).issues ++ (pf.walk t false).issues, by simp [Array.append_assoc],
      fun k => ?_, ?_⟩, Timeline.foldl_markConflict _ _⟩
  · -- sorted, and without repeats since the walk lists a column once
    exact ((List.pairwise_mergeSort' _ _).and (List.nodup_mergeSort.2 hW.nodup)).imp
      fun ⟨hle, hne⟩ => Nat.lt_of_le_of_ne hle hne
  · rw [List.mem_mergeSort, hW.conflicts, playsOn_append]
    exact exists_congr fun m => (two_le_count_flat hFnodup hF0 hQ _).symm
  · rw [Array.toList_append, List.countP_append, Issue.countP_repeatsColumn (flat_quiet pf t),
      Nat.zero_add, hW.warned k]
    simp only [List.mem_mergeSort]
  · intro i hi index m hp
    rcases Array.mem_append.1 hi with hi | hi
    · exact absurd hp (flat_quiet pf t i hi index m)
    · obtain ⟨k, hidx, hsev, hloc, hfirst⟩ := hW.placed i hi index m hp
      refine ⟨k, hidx, hsev, hloc, ?_⟩
      rw [playsOn_append]
      exact hfirst.flat hFnodup hF0 hQ

end Performer

end Jianpu
