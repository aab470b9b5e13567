import Jianpu.Score.Voices
/-!
# Columns of a timeline

Every column of an article gets a length, a start and a measure number that all voices
share.

* A column lasts the longest length its sections ask for (`Section.stat`), when that is a
  positive finite value, else one quarter.
* Its weight is the largest `w=` weight on the barlines before its sections, else 1.
* Measure numbers start at the `measure_number_start` setting (1 by default) and advance at
  every column except after a written `/`.

* `fmax`, `fmin` — the larger and the smaller of two doubles, a zero's sign ordering the
  zeros (`signBit`).
* `maxFrac`, `maxFloat` — the largest of a list, or none.
* `Timeline.allocate` — the columns, with each section told its column and start.
-/

namespace Jianpu

def maxFrac (xs : List Frac) : Option Frac :=
  xs.foldl (fun acc x => some (match acc with
    | some a => Frac.max a x
    | none => x)) none

def signBit (x : Float) : Bool := x.toBits ≥ 0x8000000000000000

/-- The larger of two numbers; a number that is not one gives way to the other, and of two
zeros the positive one is the larger. -/
def fmax (a b : Float) : Float :=
  if a.isNaN then b else if b.isNaN then a else if a < b then b else if b < a then a
  else if signBit a then b else a

/-- The smaller of two numbers; a number that is not one gives way to the other, and of two
zeros the negative one is the smaller. -/
def fmin (a b : Float) : Float :=
  if a.isNaN then b else if b.isNaN then a else if b < a then b else if a < b then a
  else if signBit a then a else b

def maxFloat (xs : List Float) : Option Float :=
  xs.foldl (fun acc x => some (match acc with
    | some a => fmax a x
    | none => x)) none

namespace Timeline

/-- The quarters column `k` lasts: the longest its sections ask, when positive and finite,
else one. -/
def columnQuarters (t : Timeline) (k : Nat) : Frac :=
  let asked := maxFrac (t.voices.toList.flatMap (·.stats k) |>.filterMap id)
  (asked.filter fun q => q.isFinite && Frac.compare q 0 == .gt).getD 1

def columnWeight (t : Timeline) (k : Nat) : Float :=
  (maxFloat (t.voices.toList.filterMap fun v =>
    (v.notes[k]?).bind (·.separators.before.attrs.weight))).getD 1.0

/-- The measure goes on past column `k`: its first written section ends at a written
`/`. -/
def continuesAfter (t : Timeline) (k : Nat) : Bool :=
  match t.reference k with
  | some s => s.separators.after.barline == .slash && !s.separators.after.span.isEmpty
  | none => false

/-- The columns of the timeline. -/
def columnsOf (t : Timeline) : Array Column :=
  let len := (t.voices[0]?.map (·.notes.size)).getD 0
  let first := ((t.renderProps.int "measure_number_start").map fun n => (max n 0).toNat).getD 1
  (List.range len).foldl (fun (cols : Array Column) k =>
    let quarters := t.columnQuarters k
    let (measure, start) := match cols.back? with
      | none => (first, 0)
      | some prev =>
        (if t.continuesAfter (k - 1) then prev.measureNumber else prev.measureNumber + 1,
          prev.startPos + prev.quarters)
    cols.push ⟨k, measure, start, quarters, t.columnWeight k⟩) #[]

def placeRow {α : Type} (cols : Array Column) (row : Array (Section α)) : Array (Section α) :=
  row.mapIdx fun k s => match cols[k]? with
    | some c => { s with ordinal := c.index, startPos := c.startPos }
    | none => s

/-- The timeline with its columns, each section placed in its column. -/
def allocate (t : Timeline) : Timeline :=
  let cols := t.columnsOf
  { t with
    columns := cols
    voices := t.voices.map fun v => { v with
      notes := placeRow cols v.notes
      chords := v.chords.map (placeRow cols)
      annotations := v.annotations.map (placeRow cols)
      forces := v.forces.map (placeRow cols)
      verses := v.verses.map fun l => { l with substitute := l.substitute.map (placeRow cols) } } }

end Timeline

end Jianpu
