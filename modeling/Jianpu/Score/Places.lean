import Jianpu.Score.Document
import Jianpu.Content.Sections
/-!
# Where written sections ended up

An editor that shows a compiled score wants to light up the section under the cursor. Every
section written on a source line keeps its line and its position in that line's row, and the
compiled score keeps it on the rendered line where it was drawn.

* `SectionPlaces` — for each source line, the positions of its sections that were drawn and
  their identities, in order of position; the first section drawn at a position counts.
* `SectionPlaces.ofDocument` — the places of the sections of every rendered line: notes,
  then chord, annotation and accent rows, then the notes that stand for lyrics.
* `SectionPlaces.cursorSerial` — the identity of the section under a cursor: the command line
  under it must hold notes or texts over notes, and the cursor's section is the one whose
  reach, from the barline before it to the barline after it, holds the cursor;
  `SectionPlaces.underCursor` names its line and position.
-/

namespace Jianpu

/-- For each source line, the drawn sections as position in the row and identity. -/
structure SectionPlaces where
  lines : List (Nat × List (Nat × Nat)) := []
  deriving Inhabited

namespace SectionPlaces

/-- Adds a section's card unless its line already has a section at its position. -/
def add (p : SectionPlaces) (c : IdCard) : SectionPlaces :=
  let rec go : List (Nat × List (Nat × Nat)) → List (Nat × List (Nat × Nat))
    | [] => [(c.line, [(c.index, c.serial)])]
    | (l, es) :: rest =>
      if l == c.line then
        if es.any (·.1 == c.index) then (l, es) :: rest
        else (l, es ++ [(c.index, c.serial)]) :: rest
      else (l, es) :: go rest
  ⟨go p.lines⟩

def addRow {α : Type} (p : SectionPlaces) (row : List (Section α)) : SectionPlaces :=
  row.foldl (fun p s => if s.isNullish then p else p.add s.card) p

/-- Adds the sections of a voice's share of a line. -/
def addPart (p : SectionPlaces) (part : LinePart) : SectionPlaces :=
  let p := p.addRow part.notes
  let p := part.chords.foldl addRow p
  let p := part.annotations.foldl addRow p
  let p := part.forces.foldl addRow p
  part.verses.foldl (fun p v => match v.substitute with
    | some row => p.addRow row
    | none => p) p

/-- The places of the sections drawn in a document, lines and positions in increasing
order. -/
def ofDocument (d : ScoreDocument) : SectionPlaces :=
  let p := d.articles.foldl (fun (p : SectionPlaces) a => match a with
    | .music m => m.lines.foldl (fun p (l : RenderLine) => l.parts.foldl addPart p) p
    | .text _ => p) {}
  ⟨(p.lines.map fun (l, es) => (l, es.mergeSort fun a b => a.1 ≤ b.1)).mergeSort
    fun a b => a.1 ≤ b.1⟩

def toJson (p : SectionPlaces) : Json :=
  .obj (p.lines.map fun (l, es) => (toString l, .list (fun (i, serial) =>
    .obj [("index", .nat i), ("uuid", .str ("s" ++ toString serial))]) es))

def locate (p : SectionPlaces) (serial : Nat) : Option (Nat × Nat) :=
  p.lines.findSome? fun (l, es) => (es.find? (·.2 == serial)).map fun (i, _) => (l, i)

def sectioned (c : Command) : Bool :=
  c == .notes || c == .chords || c == .annotations || c == .force || c == .lyricNotes

/-- The identity recorded for the section at a position of a source line. -/
def serialAt (p : SectionPlaces) (line index : Nat) : Option Nat := do
  let entries ← p.lines.lookup line
  let (_, serial) ← entries.find? (·.1 == index)
  pure serial

/-- The identity of the drawn section under the cursor at physical `row` and `col` of a
text. Only the logical line under the cursor is read again. -/
def cursorSerial (p : SectionPlaces) (text : String) (row col : Nat) : Option Nat := do
  let line ← (LogicalLine.split text).find? fun l => l.segments.any (·.line == row)
  let offset ← line.offsetOf row col
  let command ← ((ScoreLine.classify line.text).run {}).1.findSome? fun
    | .command c => some c
    | .delimiter _ _ => none
  if !sectioned command.command then none
  let grouped := ((GroupedLine.ofCommandLine command).run {}).1
  let slot ← (sectionReach grouped.content.items).findIdx? fun r =>
    r.start ≤ offset && offset ≤ r.stop
  p.serialAt line.line slot

def underCursor (p : SectionPlaces) (text : String) (row col : Nat) : Option (Nat × Nat) :=
  (p.cursorSerial text row col).bind p.locate

end SectionPlaces

end Jianpu
