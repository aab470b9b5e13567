import Mathlib
import Jianpu.Proofs.Performance.PassNumbers
/-!
# What each voice plays

At every column of every pass each voice plays one section. On the performed walk it is the
melody of the first of the voice's verse lines sung on that pass that writes one there, else
the voice's own notes; straight through, its own notes. A placeholder is not played, and the
jumpers over the column that play on the pass raise the section's transposition by their
octaves.

* `Voice.substituteAt`, `Voice.playedAt`, `Timeline.octavesAt` — the section a voice plays
  and the octaves added, as pipelines: the lines filtered by pass, their sections at the
  column, the first that is not a placeholder; the jumpers filtered, their octaves summed.
* `Timeline.partsAt` — what the voices play at a column on a pass.
* `Melodic` — every section recorded on a pass holds the parts of its column on that pass.
* `walk_passes` — a property of the passes that opening a pass, renumbering an empty one and
  playing keep holds where the walk ends.

A verse line is sung on the passes its list names (`substituteAt_eq_some_iff`), so a line
whose list is empty is sung on none.

Main statement: `read_plays_chosen_sections`.
-/

namespace Jianpu

theorem findSome?_filter_eq {α β : Type} (f : α → Option β) (q : β → Bool) (l : List α) :
    l.findSome? (fun x => (f x).filter q) = (l.filterMap f).find? q := by
  induction l with
  | nil => rfl
  | cons x l ih =>
    cases hx : f x with
    | none => simp [hx, ih]
    | some y => by_cases hy : q y <;> simp [hx, hy, ih]

namespace Voice

/-- The melody the voice's verse lines sung on pass `m` give column `k`: the first of their
sections there that is not a placeholder. -/
def substituteAt (v : Voice) (k m : Nat) : Option (Section Pitch) :=
  ((v.verses.toList.filter (·.passes.contains m)).filterMap (·.substitute.bind (·[k]?))).find?
    (!·.isNullish)

/-- The section the voice plays at column `k` on pass `m`: its verse lines' melody, except
straight through, else its own notes; nothing for a placeholder. -/
def playedAt (v : Voice) (flat : Bool) (k m : Nat) : Option (Section Pitch) :=
  ((if flat then none else v.substituteAt k m) <|> v.notes[k]?).filter (!·.isNullish)

theorem substituteAt_eq (v : Voice) (k m : Nat) :
    v.substituteAt k m = v.verses.toList.findSome? fun l =>
      if l.passes.contains m then (l.substitute.bind (·[k]?)).filter (!·.isNullish) else none := by
  rw [substituteAt, List.filterMap_filter, ← findSome?_filter_eq]
  congr 1
  funext l
  split <;> rfl

/-- **The verse lines' melody is the first one sung on the pass.** It comes from a line whose
list names the pass, is not a placeholder, and every line before it whose list names the pass
writes nothing at the column or a placeholder. -/
theorem substituteAt_eq_some_iff {v : Voice} {k m : Nat} {s : Section Pitch} :
    v.substituteAt k m = some s ↔
      ∃ before l after, v.verses.toList = before ++ l :: after ∧ m ∈ l.passes ∧
        l.substitute.bind (·[k]?) = some s ∧ s.isNullish = false ∧
        ∀ l' ∈ before, m ∈ l'.passes → ∀ s', l'.substitute.bind (·[k]?) = some s' →
          s'.isNullish = true := by
  rw [substituteAt_eq, List.findSome?_eq_some_iff]
  -- a line gives its section exactly when its list names the pass and the section is no
  -- placeholder
  have hgives : ∀ l : VerseLine, (if l.passes.contains m then
      (l.substitute.bind (·[k]?)).filter (!·.isNullish) else none) = some s ↔
      m ∈ l.passes ∧ l.substitute.bind (·[k]?) = some s ∧ s.isNullish = false := by
    intro l
    by_cases hm : m ∈ l.passes
    · simp [hm, Option.filter_eq_some_iff]
    · simp [hm]
  have hnone : ∀ l : VerseLine, (if l.passes.contains m then
      (l.substitute.bind (·[k]?)).filter (!·.isNullish) else none) = none ↔
      (m ∈ l.passes → ∀ s', l.substitute.bind (·[k]?) = some s' → s'.isNullish = true) := by
    intro l
    by_cases hm : m ∈ l.passes <;> simp [hm]
  simp only [hgives, hnone, and_assoc]

end Voice

def Timeline.octavesAt (t : Timeline) (k m : Nat) : Float :=
  ((t.jumpers.toList.filter fun j => j.contains k && j.accepts m).map
    (Float.ofInt ·.octave)).foldl (· + ·) (-0.0)

theorem Timeline.octavesAt_eq (t : Timeline) (k m : Nat) :
    t.octavesAt k m = t.jumpers.foldl (fun acc j =>
      if j.contains k && j.accepts m then acc + Float.ofInt j.octave else acc) (-0.0) := by
  rw [octavesAt, List.foldl_map, List.foldl_filter, Array.foldl_toList]

/-- What the voices play at column `k` on pass `m`, straight through (`flat`) or performed:
each voice's section, with the jumpers' octaves added to its transposition, none straight
through. -/
def Timeline.partsAt (t : Timeline) (flat : Bool) (k m : Nat) : List PlayedPart :=
  t.voices.toList.filterMap fun v => (v.playedAt flat k m).map fun s =>
    ⟨v.signature, s, { s.props with
      transpose := s.props.transpose + 12.0 * (if flat then 0.0 else t.octavesAt k m) }⟩

namespace Performer

variable {pf : Performer} {t : Timeline} {flat : Bool}

theorem buildSection_parts (w : Walk) (k m : Nat) :
    (pf.buildSection t flat w k m).parts = t.partsAt flat k m := by
  simp only [buildSection, Timeline.partsAt, Voice.playedAt, Voice.substituteAt_eq,
    Timeline.octavesAt_eq]

/-! ## A property of the passes along the walk -/

variable (pf t flat) in
/-- A property of the passes that holds of none, and that opening a pass, renumbering an empty
one and playing keep, holds of the passes of the walk. -/
theorem walk_passes {Q : Array Pass → Prop} (hstart : Q #[])
    (hopen : ∀ (ps : Array Pass) (m : Nat), Q ps → Q (ps.push ⟨m, #[]⟩))
    (hrenumber : ∀ (ys : Array Pass) (p : Pass) (m : Nat), Q (ys.push p) → p.sections = #[] →
      Q (ys.push { p with number := m }))
    (hplay : ∀ w, Q w.passes → Q (pf.play t flat w).passes) : Q (pf.walk t flat).passes := by
  unfold walk
  split
  · rename_i w₀ h
    obtain ⟨-, rfl⟩ := openPass_eq_some.1 h
    exact passes_run pf t flat hopen hrenumber hplay _ (hopen _ _ hstart)
  · exact hstart

end Performer

def Melodic (t : Timeline) (flat : Bool) (ps : Array Pass) : Prop :=
  ∀ q ∈ ps, ∀ s ∈ q.sections, s.parts = t.partsAt flat s.index q.number

namespace Melodic

variable {t : Timeline} {flat : Bool}

theorem empty : Melodic t flat #[] := by
  simp [Melodic]

theorem push_empty {ps : Array Pass} (h : Melodic t flat ps) (m : Nat) :
    Melodic t flat (ps.push ⟨m, #[]⟩) := by
  intro q hq s hs
  rcases Array.mem_push.1 hq with hq | rfl
  · exact h q hq s hs
  · simp at hs

theorem renumber {ys : Array Pass} {p : Pass} (h : Melodic t flat (ys.push p))
    (hempty : p.sections = #[]) (m : Nat) : Melodic t flat (ys.push { p with number := m }) := by
  intro q hq s hs
  rcases Array.mem_push.1 hq with hq | rfl
  · exact h q (Array.mem_push_of_mem _ hq) s hs
  · simp [hempty] at hs

/-- Playing records the section at the cursor, built for the last pass's number. -/
theorem play {pf : Performer} {w : Walk} (h : Melodic t flat w.passes) :
    Melodic t flat (pf.play t flat w).passes := by
  cases hp : w.passes.back? with
  | none =>
    -- with no pass open, playing records nothing
    rw [Array.back?_eq_none_iff] at hp
    rw [Performer.play_passes, hp]
    exact empty
  | some p =>
    obtain ⟨ys, hys⟩ := Array.back?_eq_some_iff.1 hp
    rw [Performer.play_passes, hys, Array.size_push, Nat.add_sub_cancel, modify_last_push]
    rw [hys] at h
    intro q hq s hs
    rcases Array.mem_push.1 hq with hq | rfl
    · exact h q (Array.mem_push_of_mem _ hq) s hs
    · rcases Array.mem_push.1 hs with hs | rfl
      · exact h p (Array.mem_push_self ..) s hs
      · rw [Performer.buildSection_parts, Performer.buildSection_index, Walk.number_eq hp]

end Melodic

/-- **Each voice plays its chosen section on each pass.** On every pass of a read, straight
through (`flat`) or performed, every section played at column `k` on a pass numbered `m` holds,
for each voice in order whose chosen section is not a placeholder, that section, with its
transposition raised by twelve times the octaves of the jumpers over `k` that play on `m`.
The chosen section is, when performed, the first that is not a placeholder among the sections
at `k` of the voice's verse lines whose pass lists name `m`, else the voice's own section at
`k`; straight through, its own section, with no octave added. -/
theorem read_plays_chosen_sections (pf : Performer) (t : Timeline) (flat : Bool) (j : Journal) :
    ∀ q ∈ ((pf.read t flat).run j).1.passes, ∀ s ∈ q.sections,
      s.parts = t.voices.toList.filterMap fun v =>
        ((((if flat then none else
          ((v.verses.toList.filter (·.passes.contains q.number)).filterMap
            (·.substitute.bind (·[s.index]?))).find? (!·.isNullish)) <|>
          v.notes[s.index]?).filter (!·.isNullish)).map fun c =>
          ⟨v.signature, c, { c.props with transpose := c.props.transpose + 12.0 *
            (if flat then 0.0 else
              ((t.jumpers.toList.filter fun u => u.contains s.index && u.accepts q.number).map
                (Float.ofInt ·.octave)).foldl (· + ·) (-0.0)) }⟩) := by
  rw [Performer.read_run]
  exact Performer.walk_passes pf t flat Melodic.empty (fun _ m h => h.push_empty m)
    (fun _ _ m h hempty => h.renumber hempty m) (fun _ h => h.play)

/-- Straight through an article of one voice and one column, the single pass plays the column
with the voice's own section. -/
theorem read_plays_chosen_sections_one_column :
    let pf : Performer := ⟨1, 120.0⟩
    let t : Timeline := { (default : Timeline) with
      columns := #[default], voices := #[{ (default : Voice) with notes := #[default] }] }
    ∃ q ∈ ((pf.read t true).run default).1.passes, ∃ s ∈ q.sections,
      s.parts = t.partsAt true s.index q.number := by
  intro pf t
  have hrect : t.Rectangular := ⟨fun _ => by decide, by simp [t, Timeline.sectionCount]⟩
  -- the walk straight through plays its one column on one pass
  obtain ⟨secs, hpasses, hidx⟩ :=
    @Performer.walk_straight pf t (by decide) fun _ hk => hrect.separatorsAt_ne_none hk
  obtain ⟨s, hs⟩ : ∃ s, secs.toList = [s] := by
    have hlen := congrArg List.length hidx
    simp only [List.length_map, Array.length_toList, List.length_range] at hlen
    exact List.length_eq_one_iff.1 (by simpa [t, Timeline.sectionCount] using hlen)
  have hq : (⟨0, secs⟩ : Pass) ∈ ((pf.read t true).run default).1.passes := by
    rw [Performer.read_run, hpasses]
    exact Array.mem_singleton.2 rfl
  have hsec : s ∈ secs := Array.mem_def.2 (by rw [hs]; exact List.mem_singleton_self s)
  exact ⟨_, hq, s, hsec, read_plays_chosen_sections pf t true default _ hq s hsec⟩

end Jianpu
