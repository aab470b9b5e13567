import Std.Data.HashSet
import Jianpu.Performance.Basic
/-!
# Reading an article as a player does

The walk goes through the columns of a timeline, playing the section at the cursor and
following the marks of its barlines:

* `:||` goes back to the nearest `||:` that plays on the next pass (or to the start), every
  time, or with `[xN]` only `N - 1` times;
* a section behind a volta `[n.]` plays only on pass `n`, and a jumper plays its sections
  only on the passes it names;
* `D.S.` and `D.C.` go back once, to the nearest `$` before them or to the start;
* `Fine.` ends the walk once a mark after it has been used, and `@` then skips ahead to the
  next `@`;
* `|||` ends the walk; `reset` starts the passes over at 1.

Every backward jump opens the next pass. At most `limit` passes are opened; the walk that
needs more stops with an error and is marked as cut short. A section played twice on one
pass is warned about once. On its first visit a section is checked for voices of different
time signatures (in the reading straight through) or speeds (in the performance).

The walk is a loop of turns. A turn either skips the cursor ahead, or plays the section at
the cursor and follows its closing barline: on to the next column, back to an earlier one in
a new pass, or to the end. The issues a walk raises are kept with it, in order.

* `Performer` — the limit of passes and the speed where none is set.
* `Performer.turn` — one turn of the walk; `Performer.run` — turns until the walk ends. Every
  turn that goes on either opens a pass or moves the cursor ahead, so the walk ends.
* `Performer.read` — one walk, straight through or performed.
* `Performer.perform` — both, the straight reading first; the sections played twice are
  marked on the timeline.
-/

namespace Jianpu

/-- How an article is performed: at most `limit` passes, `defaultQpm` quarters a minute
where no speed is set. -/
structure Performer where
  limit : Nat
  defaultQpm : Float

/-- Where a walk is, and the issues it has raised. -/
structure Walk where
  cursor : Nat := 0
  passes : Array Pass := #[]
  overflow : Bool := false
  clock : Float := 0.0
  played : Std.HashSet (Nat × Nat) := {}
  damage : Array Nat
  jumps : Array Nat
  visited : Array Bool
  conflicts : List Nat := []
  issues : Array Issue := #[]

/-- What the barline after a section asks for. -/
inductive Step where
  | next
  | goto (target : Nat)
  | stop

/-- What a turn of the walk leaves: a walk that goes on, or one that has ended. -/
inductive Turn where
  | more (w : Walk)
  | done (w : Walk)

namespace Timeline

/-- The barlines of a column: those of its first written section, else of the first voice's
section. -/
def separatorsAt (t : Timeline) (k : Nat) : Option Separators :=
  match t.reference k with
  | some s => some s.separators
  | none => (t.voices[0]? >>= (·.notes[k]?)).map (·.separators)

/-- Where a column is written: the line and start of its first written section, else the
article's line. -/
def location (t : Timeline) (k : Nat) : Nat × Nat :=
  match t.reference k with
  | some s => (s.card.line, s.span.start)
  | none => (t.line, 0)

end Timeline

namespace Walk

def number (w : Walk) : Nat := (w.passes.back?.map (·.number)).getD 0

def usedAfter (w : Walk) (k : Nat) : Bool := (w.damage.extract (k + 1) w.damage.size).any (· > 0)

/-! Each update below takes the array out of the walk before changing it, so that a walk held
once changes its arrays in place. -/

/-- The walk with its passes changed by `f`. -/
def mapPasses (w : Walk) (f : Array Pass → Array Pass) : Walk :=
  let passes := w.passes
  let w := { w with passes := #[] }
  { w with passes := f passes }

def raise (w : Walk) (i : Issue) : Walk :=
  let issues := w.issues
  let w := { w with issues := #[] }
  { w with issues := issues.push i }

/-- Notes that column `k` is played on a pass numbered `number`. -/
def markPlayed (w : Walk) (k number : Nat) : Walk :=
  let played := w.played
  let w := { w with played := {} }
  { w with played := played.insert (k, number) }

/-- Notes that column `k` has been played once. -/
def markVisited (w : Walk) (k : Nat) : Walk :=
  let visited := w.visited
  let w := { w with visited := #[] }
  { w with visited := visited.setIfInBounds k true }

/-- Counts a use of the mark after column `k`, and a jump back from it when `jumped`. -/
def markUsed (w : Walk) (k : Nat) (jumped : Bool) : Walk :=
  let damage := w.damage
  let jumps := w.jumps
  let w := { w with damage := #[], jumps := #[] }
  { w with
    damage := damage.modify k (· + 1)
    jumps := if jumped then jumps.modify k (· + 1) else jumps }

def record (w : Walk) (s : PlayedSection) : Walk :=
  let w := { w with clock := w.clock + s.lengthMillis }
  w.mapPasses fun ps => ps.modify (ps.size - 1) fun p => { p with sections := p.sections.push s }

@[simp] theorem mapPasses_passes (w : Walk) (f : Array Pass → Array Pass) :
    (w.mapPasses f).passes = f w.passes := rfl

@[simp] theorem mapPasses_cursor (w : Walk) (f : Array Pass → Array Pass) :
    (w.mapPasses f).cursor = w.cursor := rfl

@[simp] theorem raise_passes (w : Walk) (i : Issue) : (w.raise i).passes = w.passes := rfl

@[simp] theorem raise_cursor (w : Walk) (i : Issue) : (w.raise i).cursor = w.cursor := rfl

@[simp] theorem markPlayed_passes (w : Walk) (k m : Nat) : (w.markPlayed k m).passes = w.passes :=
  rfl

@[simp] theorem markPlayed_cursor (w : Walk) (k m : Nat) : (w.markPlayed k m).cursor = w.cursor :=
  rfl

@[simp] theorem markVisited_passes (w : Walk) (k : Nat) : (w.markVisited k).passes = w.passes :=
  rfl

@[simp] theorem markVisited_cursor (w : Walk) (k : Nat) : (w.markVisited k).cursor = w.cursor :=
  rfl

@[simp] theorem markUsed_passes (w : Walk) (k : Nat) (b : Bool) :
    (w.markUsed k b).passes = w.passes := rfl

@[simp] theorem markUsed_cursor (w : Walk) (k : Nat) (b : Bool) :
    (w.markUsed k b).cursor = w.cursor := rfl

@[simp] theorem record_passes (w : Walk) (s : PlayedSection) :
    (w.record s).passes =
      w.passes.modify (w.passes.size - 1) fun p => { p with sections := p.sections.push s } := rfl

@[simp] theorem record_cursor (w : Walk) (s : PlayedSection) : (w.record s).cursor = w.cursor :=
  rfl

@[simp] theorem mapPasses_issues (w : Walk) (f : Array Pass → Array Pass) :
    (w.mapPasses f).issues = w.issues := rfl

@[simp] theorem mapPasses_overflow (w : Walk) (f : Array Pass → Array Pass) :
    (w.mapPasses f).overflow = w.overflow := rfl

@[simp] theorem mapPasses_played (w : Walk) (f : Array Pass → Array Pass) :
    (w.mapPasses f).played = w.played := rfl

@[simp] theorem mapPasses_conflicts (w : Walk) (f : Array Pass → Array Pass) :
    (w.mapPasses f).conflicts = w.conflicts := rfl

@[simp] theorem raise_issues (w : Walk) (i : Issue) : (w.raise i).issues = w.issues.push i := rfl

@[simp] theorem raise_overflow (w : Walk) (i : Issue) : (w.raise i).overflow = w.overflow := rfl

@[simp] theorem raise_played (w : Walk) (i : Issue) : (w.raise i).played = w.played := rfl

@[simp] theorem raise_conflicts (w : Walk) (i : Issue) : (w.raise i).conflicts = w.conflicts :=
  rfl

@[simp] theorem markPlayed_issues (w : Walk) (k m : Nat) : (w.markPlayed k m).issues = w.issues :=
  rfl

@[simp] theorem markPlayed_played (w : Walk) (k m : Nat) :
    (w.markPlayed k m).played = w.played.insert (k, m) := rfl

@[simp] theorem markPlayed_conflicts (w : Walk) (k m : Nat) :
    (w.markPlayed k m).conflicts = w.conflicts := rfl

@[simp] theorem markVisited_issues (w : Walk) (k : Nat) : (w.markVisited k).issues = w.issues :=
  rfl

@[simp] theorem markVisited_overflow (w : Walk) (k : Nat) :
    (w.markVisited k).overflow = w.overflow := rfl

@[simp] theorem markVisited_played (w : Walk) (k : Nat) : (w.markVisited k).played = w.played :=
  rfl

@[simp] theorem markVisited_conflicts (w : Walk) (k : Nat) :
    (w.markVisited k).conflicts = w.conflicts := rfl

@[simp] theorem markUsed_issues (w : Walk) (k : Nat) (b : Bool) :
    (w.markUsed k b).issues = w.issues := rfl

@[simp] theorem markUsed_overflow (w : Walk) (k : Nat) (b : Bool) :
    (w.markUsed k b).overflow = w.overflow := rfl

@[simp] theorem markUsed_played (w : Walk) (k : Nat) (b : Bool) :
    (w.markUsed k b).played = w.played := rfl

@[simp] theorem markUsed_conflicts (w : Walk) (k : Nat) (b : Bool) :
    (w.markUsed k b).conflicts = w.conflicts := rfl

@[simp] theorem record_issues (w : Walk) (s : PlayedSection) : (w.record s).issues = w.issues :=
  rfl

@[simp] theorem record_overflow (w : Walk) (s : PlayedSection) :
    (w.record s).overflow = w.overflow := rfl

@[simp] theorem record_played (w : Walk) (s : PlayedSection) : (w.record s).played = w.played :=
  rfl

@[simp] theorem record_conflicts (w : Walk) (s : PlayedSection) :
    (w.record s).conflicts = w.conflicts := rfl

end Walk

namespace Performer

variable (pf : Performer) (t : Timeline)

def openPass (w : Walk) (number : Nat) : Option Walk :=
  if w.passes.size < pf.limit then some (w.mapPasses (·.push ⟨number, #[]⟩)) else none

/-- The walk cut short at the limit of passes, with the error raised where the cursor
stands. -/
def cutShort (w : Walk) : Walk :=
  let place := t.location w.cursor
  { w.raise ⟨place.1, place.2, .error, .repeatOverflow pf.limit⟩ with overflow := true }

def voltaEnd (k : Nat) : Nat :=
  go k (t.sectionCount - k)
where
  /-- Looks from column `i` on, `fuel` columns at most. -/
  go (i : Nat) : Nat → Nat
    | 0 => t.sectionCount
    | fuel + 1 =>
      match t.separatorsAt i with
      | none => t.sectionCount
      | some s =>
        if i > k && !s.before.attrs.iterations.isEmpty then i
        else if s.after.barline.isRepeatEnd || s.after.barline.isTerminal then i + 1
        else go (i + 1) fuel

/-- Where to go instead of playing the section at the cursor: past a jumper or volta that
does not play on this pass, or on to the next `@` once a later mark has been used. -/
def skipTarget (w : Walk) (s : Separators) : Option Nat :=
  let k := w.cursor
  let number := w.number
  match t.jumpers.find? fun j => j.start == k && !j.accepts number with
  | some j => some (max j.stop (k + 1))
  | none =>
    let voltas := s.before.attrs.iterations
    if !voltas.isEmpty && !voltas.contains number then some (voltaEnd t k)
    else if s.before.attrs.hasPortal && (w.visited[k]?).getD false && w.usedAfter k then
      let n := t.sectionCount
      some (((List.range (n - (k + 1))).map (k + 1 + ·)).find? (fun i =>
        (t.separatorsAt i).any (·.before.attrs.hasPortal)) |>.getD n)
    else none

/-- A reset starts the passes over at 1: the current pass is renumbered when nothing was
played on it yet, else a new pass opens. -/
def reset (w : Walk) : Option Walk :=
  match w.passes.back? with
  | some p =>
    if p.sections.isEmpty then some (w.mapPasses fun ps => ps.pop.push { p with number := 1 })
    else pf.openPass w 1
  | none => pf.openPass w 1

/-- The section at column `k` as played on pass `number`: every voice that has a section
written there (a verse line's own melody for the pass first, except in the reading straight
through), the octaves of the jumpers that play added as transposition. -/
def buildSection (flat : Bool) (w : Walk) (k number : Nat) : PlayedSection :=
  let octave : Float := if flat then 0.0 else
    t.jumpers.foldl (fun acc j => if j.contains k && j.accepts number
      then acc + Float.ofInt j.octave else acc) (-0.0)
  let parts := t.voices.toList.filterMap fun v =>
    let own := if flat then none else
      v.verses.toList.findSome? fun l =>
        if l.passes.contains number then
          (l.substitute.bind (·[k]?)).filter (!·.isNullish)
        else none
    let chosen := (own <|> v.notes[k]?).filter (!·.isNullish)
    chosen.map fun s =>
      ⟨v.signature, s, { s.props with transpose := s.props.transpose + 12.0 * octave }⟩
  let qpm := ((parts.filterMap fun p => p.props.tempo.map Tempo.quartersPerMinute).foldl
    (fun acc q => some (match acc with
      | some a => fmin a q
      | none => q)) none).getD pf.defaultQpm
  let column := t.columns.getD k default
  let lengthQuarters := column.quarters.toFloat
  ⟨k, column.measureNumber, parts, qpm, parts.head?.bind (·.props.meter), lengthQuarters,
    lengthQuarters * 60000.0 / qpm, w.clock⟩

/-- The warning for a section whose voices differ in time signature (straight through) or in
speed (performed). -/
def mismatch (flat : Bool) (s : PlayedSection) : Option Issue :=
  let (line, index) := t.location s.index
  if flat then
    match s.parts.filterMap (·.props.meter) with
    | first :: rest =>
      if rest.any (· != first) then some ⟨line, index, .warning, .beatsMismatch s.measureNumber⟩
      else none
    | [] => none
  else
    match s.parts.filterMap fun p => p.props.tempo.map Tempo.quartersPerMinute with
    | first :: rest =>
      if rest.any fun q => (q - first).abs > 1e-9 then
        some ⟨line, index, .warning, .qpmMismatch s.measureNumber⟩
      else none
    | [] => none

/-- Notes that column `k` is played on a pass numbered `number`; the first time it is played
again on a pass of a number it was played on, it is warned about, once for all passes. -/
def tally (w : Walk) (k number : Nat) : Walk :=
  if w.played.contains (k, number) then
    if w.conflicts.contains k then w
    else
      let place := t.location k
      { w with conflicts := w.conflicts ++ [k] }.raise
        ⟨place.1, place.2, .warning, .repeatConflict (k + 1) number⟩
  else w.markPlayed k number

/-- Notes the first visit of column `k`, whose section `s` is then checked for voices that
disagree. -/
def visit (flat : Bool) (w : Walk) (k : Nat) (s : PlayedSection) : Walk :=
  if (w.visited[k]?).getD false then w
  else
    match mismatch t flat s with
    | some i => (w.markVisited k).raise i
    | none => w.markVisited k

/-- Plays the section at the cursor on the current pass. -/
def play (flat : Bool) (w : Walk) : Walk :=
  let k := w.cursor
  let number := w.number
  let w := tally t w k number
  let s := buildSection pf t flat w k number
  (visit t flat w k s).record s

def segnoBefore (k : Nat) : Nat :=
  ((List.range (k + 1)).reverse.find? fun i => (t.separatorsAt i).any (·.before.attrs.hasSegno)).getD 0

/-- Neither a volta bracket nor a jumper keeps column `k` out of pass `number`. -/
def admits (k number : Nat) : Bool :=
  match t.separatorsAt k with
  | none => false
  | some s =>
    let voltas := s.before.attrs.iterations
    (voltas.isEmpty || voltas.contains number) && !t.jumpers.any fun j => j.contains k && !j.accepts number

/-- The nearest `||:` at or before `k` that plays on the next pass, else the start. -/
def repeatStartBefore (w : Walk) (k : Nat) : Nat :=
  let next := w.number + 1
  ((List.range (k + 1)).reverse.find? fun i =>
    (t.separatorsAt i).any (·.before.barline.isRepeatStart) && admits t i next).getD 0

/-- What the barline after the cursor asks for, and the walk with the marks it used. -/
def after (w : Walk) (s : Separators) : Step × Walk :=
  let k := w.cursor
  let jump := s.after.attrs.jump
  let dmg := (w.damage[k]?).getD 0
  match jump with
  | some .dalSegno | some .daCapo =>
    if dmg == 0 then
      let target := if jump == some .dalSegno then segnoBefore t k else 0
      (.goto target, w.markUsed k false)
    else rest w
  | some .fine => if w.usedAfter k then (.stop, w) else rest w
  | none => rest w
where
  /-- The repeat and the end of the row. -/
  rest (w : Walk) : Step × Walk :=
    let k := w.cursor
    if s.after.barline.isRepeatEnd &&
        (s.after.attrs.times.all fun times => (w.jumps.getD k 0) + 1 < times) then
      (.goto (repeatStartBefore t w k), w.markUsed k true)
    else if s.after.barline.isTerminal then (.stop, w)
    else (.next, w)

/-- What the barline after the section just played asks for: straight through, always the
next column; performed, what `after` says. -/
def closing (flat : Bool) (s : Separators) (w : Walk) : Step × Walk :=
  if flat then (.next, w) else after t w s

/-- Follows the barline after the section just played: on to the next column, to the end,
or back in a new pass. -/
def follow (flat : Bool) (s : Separators) (w : Walk) : Turn :=
  match closing t flat s w with
  | (.next, w) => .more { w with cursor := w.cursor + 1 }
  | (.stop, w) => .done w
  | (.goto target, w) =>
    match pf.openPass w (w.number + 1) with
    | some w => .more { w with cursor := target }
    | none => .done (cutShort pf t w)

/-- Plays the section at the cursor, after a reset when its barline asks for one, and
follows the barline after it. -/
def advance (flat : Bool) (s : Separators) (w : Walk) : Turn :=
  if !flat && s.before.attrs.hasReset then
    match pf.reset w with
    | some w => follow pf t flat s (play pf t flat w)
    | none => .done (cutShort pf t w)
  else follow pf t flat s (play pf t flat w)

/-- One turn of the walk: past the last column, or at a column without barlines, it ends;
else the section at the cursor is skipped (never straight through) or played. -/
def turn (flat : Bool) (w : Walk) : Turn :=
  if w.cursor < t.sectionCount then
    match t.separatorsAt w.cursor with
    | none => .done w
    | some s =>
      if flat then advance pf t flat s w
      else
        match skipTarget t w s with
        | some target => .more { w with cursor := target }
        | none => advance pf t flat s w
  else .done w

/-! ## Every turn that goes on brings the walk nearer its end

A turn that goes on either opens a pass, of which at most `limit` can be open, or keeps the
passes and moves the cursor ahead of where it was, below the last column. -/

section Progress

variable {pf t}

theorem voltaEnd_go_gt {k : Nat} (hk : k < t.sectionCount) :
    ∀ (fuel i : Nat), k ≤ i → k < voltaEnd.go t k i fuel
  | 0, _, _ => by simpa [voltaEnd.go] using hk
  | fuel + 1, i, hi => by
    unfold voltaEnd.go
    split
    · exact hk
    · split
      · rename_i h
        simp only [Bool.and_eq_true, decide_eq_true_eq] at h
        exact h.1
      · split
        · omega
        · exact voltaEnd_go_gt hk fuel (i + 1) (by omega)

theorem voltaEnd_gt {k : Nat} (hk : k < t.sectionCount) : k < voltaEnd t k :=
  voltaEnd_go_gt hk _ k (Nat.le_refl k)

/-- Every skip moves the cursor ahead. -/
theorem skipTarget_gt {w : Walk} {s : Separators} {target : Nat}
    (hk : w.cursor < t.sectionCount) (h : skipTarget t w s = some target) :
    w.cursor < target := by
  unfold skipTarget at h
  dsimp only at h
  split at h
  · -- past a jumper: at least one column on
    simp only [Option.some.injEq] at h
    omega
  · split at h
    · simp only [Option.some.injEq] at h
      exact h ▸ voltaEnd_gt hk
    · split at h
      · -- on to the next portal, found among the columns after the cursor, or to the end
        simp only [Option.some.injEq] at h
        subst h
        cases hf : ((List.range (t.sectionCount - (w.cursor + 1))).map (w.cursor + 1 + ·)).find?
            (fun i => (t.separatorsAt i).any (·.before.attrs.hasPortal)) with
        | none => simpa using hk
        | some i =>
          have hi := List.mem_of_find?_eq_some hf
          simp only [List.mem_map, List.mem_range] at hi
          obtain ⟨x, -, rfl⟩ := hi
          simp
          omega
      · cases h

theorem openPass_eq_some {w w' : Walk} {m : Nat} :
    pf.openPass w m = some w' ↔
      w.passes.size < pf.limit ∧ w' = w.mapPasses (·.push ⟨m, #[]⟩) := by
  unfold openPass
  by_cases h : w.passes.size < pf.limit
  · simp [h, eq_comm]
  · simp [h]

theorem reset_progress {w w' : Walk} (h : pf.reset w = some w') :
    w'.cursor = w.cursor ∧ (w'.passes.size = w.passes.size ∨
      (w.passes.size < pf.limit ∧ w'.passes.size = w.passes.size + 1)) := by
  unfold reset at h
  split at h
  · rename_i p hp
    obtain ⟨ys, hys⟩ := Array.back?_eq_some_iff.1 hp
    split at h
    · -- the empty pass renumbered in place
      simp only [Option.some.injEq] at h
      subst h
      simp [hys]
    · obtain ⟨hlt, rfl⟩ := openPass_eq_some.1 h
      simp [hlt]
  · obtain ⟨hlt, rfl⟩ := openPass_eq_some.1 h
    simp [hlt]

@[simp] theorem tally_passes (w : Walk) (k m : Nat) : (tally t w k m).passes = w.passes := by
  unfold tally
  split
  · split <;> rfl
  · rfl

@[simp] theorem tally_cursor (w : Walk) (k m : Nat) : (tally t w k m).cursor = w.cursor := by
  unfold tally
  split
  · split <;> rfl
  · rfl

@[simp] theorem visit_passes (flat : Bool) (w : Walk) (k : Nat) (s : PlayedSection) :
    (visit t flat w k s).passes = w.passes := by
  unfold visit
  split
  · rfl
  · split <;> rfl

@[simp] theorem visit_cursor (flat : Bool) (w : Walk) (k : Nat) (s : PlayedSection) :
    (visit t flat w k s).cursor = w.cursor := by
  unfold visit
  split
  · rfl
  · split <;> rfl

@[simp] theorem tally_overflow (w : Walk) (k m : Nat) : (tally t w k m).overflow = w.overflow := by
  unfold tally
  split
  · split <;> rfl
  · rfl

@[simp] theorem visit_overflow (flat : Bool) (w : Walk) (k : Nat) (s : PlayedSection) :
    (visit t flat w k s).overflow = w.overflow := by
  unfold visit
  split
  · rfl
  · split <;> rfl

@[simp] theorem visit_played (flat : Bool) (w : Walk) (k : Nat) (s : PlayedSection) :
    (visit t flat w k s).played = w.played := by
  unfold visit
  split
  · rfl
  · split <;> rfl

@[simp] theorem visit_conflicts (flat : Bool) (w : Walk) (k : Nat) (s : PlayedSection) :
    (visit t flat w k s).conflicts = w.conflicts := by
  unfold visit
  split
  · rfl
  · split <;> rfl

@[simp] theorem cutShort_passes (w : Walk) : (pf.cutShort t w).passes = w.passes := rfl

@[simp] theorem cutShort_overflow (w : Walk) : (pf.cutShort t w).overflow = true := rfl

@[simp] theorem cutShort_played (w : Walk) : (pf.cutShort t w).played = w.played := rfl

@[simp] theorem cutShort_conflicts (w : Walk) : (pf.cutShort t w).conflicts = w.conflicts := rfl

@[simp] theorem cutShort_issues (w : Walk) :
    (pf.cutShort t w).issues = w.issues.push
      ⟨(t.location w.cursor).1, (t.location w.cursor).2, .error, .repeatOverflow pf.limit⟩ := rfl

@[simp] theorem play_cursor (flat : Bool) (w : Walk) : (play pf t flat w).cursor = w.cursor := by
  simp [play]

@[simp] theorem play_passes_size (flat : Bool) (w : Walk) :
    (play pf t flat w).passes.size = w.passes.size := by
  simp [play]

theorem after_rest_walk (s : Separators) (w : Walk) :
    (after.rest t s w).2 = w ∨ (after.rest t s w).2 = w.markUsed w.cursor true := by
  unfold after.rest
  dsimp only
  split
  · exact .inr rfl
  · split <;> exact .inl rfl

theorem after_walk (w : Walk) (s : Separators) :
    (after t w s).2 = w ∨ ∃ b, (after t w s).2 = w.markUsed w.cursor b := by
  unfold after
  dsimp only
  split
  · split
    · exact .inr ⟨false, rfl⟩
    · exact (after_rest_walk s w).imp id fun h => ⟨true, h⟩
  · split
    · exact .inr ⟨false, rfl⟩
    · exact (after_rest_walk s w).imp id fun h => ⟨true, h⟩
  · split
    · exact .inl rfl
    · exact (after_rest_walk s w).imp id fun h => ⟨true, h⟩
  · exact (after_rest_walk s w).imp id fun h => ⟨true, h⟩

@[simp] theorem after_passes (w : Walk) (s : Separators) : (after t w s).2.passes = w.passes := by
  rcases after_walk w s with h | ⟨b, h⟩
  · rw [h]
  · rw [h]
    rfl

@[simp] theorem after_cursor (w : Walk) (s : Separators) : (after t w s).2.cursor = w.cursor := by
  rcases after_walk w s with h | ⟨b, h⟩
  · rw [h]
  · rw [h]
    rfl

theorem follow_progress {flat : Bool} {s : Separators} {w w' : Walk}
    (h : follow pf t flat s w = .more w') :
    (w'.passes.size = w.passes.size ∧ w'.cursor = w.cursor + 1) ∨
      (w.passes.size < w'.passes.size ∧ w'.passes.size ≤ pf.limit) := by
  unfold follow at h
  generalize hr : closing t flat s w = r at h
  obtain ⟨step, w₁⟩ := r
  have hw₁ : w₁.passes = w.passes ∧ w₁.cursor = w.cursor := by
    unfold closing at hr
    split at hr
    · cases hr
      exact ⟨rfl, rfl⟩
    · have h₂ : (after t w s).2 = w₁ := by rw [hr]
      exact ⟨h₂ ▸ after_passes .., h₂ ▸ after_cursor ..⟩
  cases step with
  | next =>
    simp only [Turn.more.injEq] at h
    subst h
    exact .inl ⟨by simp [hw₁.1], by simp [hw₁.2]⟩
  | stop => cases h
  | goto target =>
    simp only at h
    split at h
    · rename_i w₂ ho
      simp only [Turn.more.injEq] at h
      subst h
      obtain ⟨hlt, rfl⟩ := openPass_eq_some.1 ho
      refine .inr ⟨by simp [← hw₁.1], ?_⟩
      simp only [Walk.mapPasses_passes, Array.size_push]
      omega
    · cases h

theorem advance_progress {flat : Bool} {s : Separators} {w w' : Walk}
    (h : advance pf t flat s w = .more w') :
    (w'.passes.size = w.passes.size ∧ w'.cursor = w.cursor + 1) ∨
      (w.passes.size < w'.passes.size ∧ w'.passes.size ≤ pf.limit) := by
  unfold advance at h
  split at h
  · split at h
    · rename_i w₁ hr
      obtain ⟨hc, hsize⟩ := reset_progress hr
      rcases follow_progress h with ⟨h1, h2⟩ | ⟨h1, h2⟩ <;> simp only [play_passes_size,
        play_cursor] at h1 h2 <;> omega
    · cases h
  · rcases follow_progress h with ⟨h1, h2⟩ | ⟨h1, h2⟩ <;> simp only [play_passes_size,
      play_cursor] at h1 h2 <;> omega

/-- A turn that goes on keeps its passes and moves the cursor ahead, or opens a pass. -/
theorem turn_progress {flat : Bool} {w w' : Walk} (h : turn pf t flat w = .more w') :
    w.cursor < t.sectionCount ∧
      ((w'.passes.size = w.passes.size ∧ w.cursor < w'.cursor) ∨
        (w.passes.size < w'.passes.size ∧ w'.passes.size ≤ pf.limit)) := by
  unfold turn at h
  split at h
  · rename_i hk
    refine ⟨hk, ?_⟩
    split at h
    · cases h
    · split at h
      · rcases advance_progress h with ⟨h1, h2⟩ | h1
        · exact .inl ⟨h1, by omega⟩
        · exact .inr h1
      · split at h
        · rename_i target ht
          simp only [Turn.more.injEq] at h
          subst h
          exact .inl ⟨rfl, skipTarget_gt hk ht⟩
        · rcases advance_progress h with ⟨h1, h2⟩ | h1
          · exact .inl ⟨h1, by omega⟩
          · exact .inr h1
  · cases h

theorem turn_lex {flat : Bool} {w w' : Walk} (h : turn pf t flat w = .more w') :
    Prod.Lex (· < ·) (· < ·) (pf.limit - w'.passes.size, t.sectionCount + 1 - w'.cursor)
      (pf.limit - w.passes.size, t.sectionCount + 1 - w.cursor) := by
  obtain ⟨hk, ⟨hsize, hcur⟩ | ⟨hlt, hle⟩⟩ := turn_progress h
  · rw [hsize]
    exact Prod.Lex.right _ (by omega)
  · exact Prod.Lex.left _ _ (by omega)

end Progress

def run (flat : Bool) (w : Walk) : Walk :=
  match _h : turn pf t flat w with
  | .more w' => run flat w'
  | .done w' => w'
termination_by (pf.limit - w.passes.size, t.sectionCount + 1 - w.cursor)
decreasing_by exact turn_lex _h

def start : Walk :=
  let n := t.sectionCount
  { damage := Array.replicate n 0
    jumps := Array.replicate n 0
    visited := Array.replicate n false }

@[simp] theorem start_passes : (start t).passes = #[] := rfl

@[simp] theorem start_cursor : (start t).cursor = 0 := rfl

@[simp] theorem start_overflow : (start t).overflow = false := rfl

@[simp] theorem start_issues : (start t).issues = #[] := rfl

@[simp] theorem start_played : (start t).played = {} := rfl

@[simp] theorem start_conflicts : (start t).conflicts = [] := rfl

/-- The whole walk over the timeline, straight through (`flat`) or performed: its first pass
is numbered 0 straight through and 1 performed. -/
def walk (flat : Bool) : Walk :=
  match pf.openPass (start t) (if flat then 0 else 1) with
  | some w => run pf t flat w
  | none => cutShort pf t (start t)

/-- One walk over the timeline, straight through (`flat`) or performed, raising its issues. -/
def read (flat : Bool) : Compiling Performance := do
  let w := walk pf t flat
  modify fun j => { j with issues := j.issues ++ w.issues }
  let conflicts := w.conflicts.mergeSort
  pure ⟨w.overflow, !conflicts.isEmpty, conflicts, w.passes⟩

/-- The straight reading and the performance of the timeline; sections played twice on one
pass are marked on it. -/
def perform : Compiling (Performance × Timeline) := do
  let flat ← read pf t true
  let performed ← read pf t false
  let t := performed.conflictedSections.foldl Timeline.markConflict t
  pure (⟨performed.overflow, performed.conflict, performed.conflictedSections,
    flat.passes ++ performed.passes⟩, t)

end Performer

end Jianpu
