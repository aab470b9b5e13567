import Jianpu.Performance.Walk
import Jianpu.Layout.Space
/-!
# Rendered lines

An article is cut into rendered lines: every fragment starts a new line, and a line holds at
most the fragment's `n` sections (4 by default). A row with nothing written on a line is left
out of it. At the ends of a line the barlines are drawn as a line start or end draws them:
the first section opens with the barline its neighbour hands on, the last closes with the
form its barline takes at a line end.

* `LineVerse`, `LinePart`, `SectionLayout`, `RenderLine` — a line's share of a verse line,
  of a voice, where its sections ended up, and the line itself.
* `Timeline.cutLine` — the line of columns `[start, stop)`, without its layout.
-/

namespace Jianpu

/-- A verse line's share of a rendered line. -/
structure LineVerse where
  signature : String
  tags : List String
  label : Option String
  substitute : Option (List (Section Pitch))
  lyrics : List (List LyricNote)
  deriving Inhabited

/-- A voice's share of a rendered line. -/
structure LinePart where
  signature : String
  tags : List String
  notes : List (Section Pitch)
  chords : List (List (Section ChordName))
  annotations : List (List (Section TextMark))
  forces : List (List (Section ForceMark))
  verses : List LineVerse
  deriving Inhabited

/-- Where a section of a line ended up: its start and width, how its positions were set,
and where each stands. -/
structure SectionLayout where
  index : Nat
  x : Float
  width : Float
  status : DispatchStatus
  positions : List (Frac × Float)
  deriving Inhabited

/-- A rendered line: its columns `[start, stop)`, its voices and its layout. -/
structure RenderLine where
  start : Nat
  stop : Nat
  columns : List Column
  parts : List LinePart
  layout : List SectionLayout
  deriving Inhabited

def sectionsJson {α : Type} [NoteGlyph α] (ss : List (Section α)) : Json := .list Section.toJson ss

def LineVerse.toJson (l : LineVerse) : Json :=
  .obj [("signature", .str l.signature), ("tags", .list .str l.tags), ("label", .opt .str l.label),
    ("substitute", .opt sectionsJson l.substitute),
    ("lyrics", .list (.list LyricNote.toJson) l.lyrics)]

def LinePart.toJson (p : LinePart) : Json :=
  .obj [("signature", .str p.signature), ("tags", .list .str p.tags),
    ("notes", sectionsJson p.notes), ("chords", .list sectionsJson p.chords),
    ("annotations", .list sectionsJson p.annotations), ("forces", .list sectionsJson p.forces),
    ("lyricLines", .list LineVerse.toJson p.verses)]

def SectionLayout.toJson (l : SectionLayout) : Json :=
  .obj [("index", .nat l.index), ("x", .num l.x), ("width", .num l.width),
    ("status", .str l.status.name),
    ("positions", .list (fun (p, x) => .obj [("pos", .str p.toString), ("x", .num x)]) l.positions)]

def RenderLine.toJson (l : RenderLine) : Json :=
  .obj [("start", .nat l.start), ("end", .nat l.stop), ("columns", .list Column.toJson l.columns),
    ("parts", .list LinePart.toJson l.parts), ("layout", .list SectionLayout.toJson l.layout)]

variable {α : Type}

def rowRange {β : Type} (row : Array β) (start stop : Nat) : List β :=
  if stop ≤ row.size then (row.extract start stop).toList else []

def hasContent (row : Array (Section α)) (start stop : Nat) : Bool :=
  (rowRange row start stop).any (!·.isNullish)

/-- Columns `[start, stop)` of a row with the barlines at the line's ends as a line draws
them. -/
def sliceRow (row : Array (Section α)) (start stop : Nat) : List (Section α) :=
  let out := rowRange row start stop
  let out := match start, out with
    | k + 1, first :: more =>
      match row[k]? with
      | some prev => { first with separators.before.barline := prev.separators.next } :: more
      | none => first :: more
    | _, out => out
  match out.getLast? with
  | some last =>
    out.dropLast ++ [{ last with separators.after.barline := last.separators.after.barline.after }]
  | none => out

def sliceRows (rows : Array (Array (Section α))) (start stop : Nat) : List (List (Section α)) :=
  rows.toList.filter (hasContent · start stop) |>.map (sliceRow · start stop)

/-- A verse line's share of columns `[start, stop)`, none when it has nothing there. -/
def VerseLine.lineShare (l : VerseLine) (start stop : Nat) : Option LineVerse :=
  let lyrics := rowRange l.lyrics start stop
  let substitute := (l.substitute.filter (hasContent · start stop)).map (sliceRow · start stop)
  if substitute.isNone && lyrics.all List.isEmpty then none
  else some ⟨l.signature, l.tags, l.label, substitute, lyrics⟩

/-- A voice's share of columns `[start, stop)`. -/
def Voice.lineShare (v : Voice) (start stop : Nat) : LinePart :=
  ⟨v.signature, v.tags, sliceRow v.notes start stop, sliceRows v.chords start stop,
    sliceRows v.annotations start stop, sliceRows v.forces start stop,
    v.verses.toList.filterMap (·.lineShare start stop)⟩

/-- The line of columns `[start, stop)`, its voices those with notes written there, without
its layout. -/
def Timeline.cutLine (t : Timeline) (start stop : Nat) : RenderLine :=
  ⟨start, stop, rowRange t.columns start stop,
    t.voices.toList.filter (hasContent ·.notes start stop) |>.map (·.lineShare start stop), []⟩

end Jianpu
