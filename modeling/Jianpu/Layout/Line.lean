import Jianpu.Score.Lines
/-!
# Laying out a rendered line

Each section of a line gets a share of the line's width by its column's weight, and the time
positions inside it get their places from what stands at them:

* a note occupies half its width on each side: its digit, its accidentals beside it, or a
  `-` for an extension;
* a chord name, annotation or accent only prefers that room, at its own size (0.7, 0.6 and
  0.6 of the note size unless set);
* a syllable occupies its room when one of its characters takes space, else only prefers
  it, and prefers the room of its trailing punctuation on the right;
* a time signature shown at a section's start, where it changes or at the very start of the
  article, widens the section's start.

A section laid out wider than its share pushes the sections after it to the right.

* `LineLayout` — the glyph widths and render settings a line is laid out with.
* `LineLayout.request`, `LineLayout.dispatch` — what a section asks for, and the layout of
  every section of a line.
-/

namespace Jianpu

/-- Positions with their footprints, in order of position, one entry a position. -/
def putFootprint (m : List (Frac × Footprint)) (pos : Frac) (fp : Footprint) :
    List (Frac × Footprint) :=
  match m with
  | [] => [(pos, Footprint.merge {} fp)]
  | (p, f) :: rest =>
    match Frac.compare pos p with
    | .lt => (pos, Footprint.merge {} fp) :: (p, f) :: rest
    | .eq => (p, f.merge fp) :: rest
    | .gt => (p, f) :: putFootprint rest pos fp

/-- The time signature shown at a section's start: one set at its barline, or the one in
effect at the very start of the article. -/
def shownMeter {α : Type} (s : Section α) (first : Bool) : Option String :=
  match s.separators.before.attrs.own.findSome? fun | .meter m => some m | _ => none with
  | some m => some m.display
  | none => if first then s.props.meter.map Meter.display else none

/-- What a line is laid out with: glyph widths and render settings. -/
structure LineLayout where
  metrics : GlyphMetrics
  props : RenderProps

namespace LineLayout

variable (lx : LineLayout)

/-- The footprints of a row of notes: half a note's width on each side. -/
def musicFootprints (size : Float) (m : List (Frac × Footprint)) (s : Section Pitch) :
    List (Frac × Footprint) :=
  s.notes.foldl (fun m n =>
    let width := match n.kind with
      | .note c => lx.metrics.measure (String.ofList [c.char]) size
          + c.accidentals.length.toFloat * lx.metrics.accidental size
      | .extend => lx.metrics.measure "-" size
    putFootprint m n.startPos (Footprint.hard (width / 2.0) (width / 2.0))) m

/-- The footprints of a row of texts: half a text's width preferred on each side. -/
def textFootprints {α : Type} [NoteGlyph α] (size : Float) (m : List (Frac × Footprint))
    (s : Option (Section α)) : List (Frac × Footprint) :=
  ((s.map Section.notes).getD []).foldl (fun m n =>
    match n.glyph with
    | some c =>
      let width := lx.metrics.measure (NoteGlyph.display c) size
      putFootprint m n.startPos (Footprint.soft (width / 2.0) (width / 2.0))
    | none => m) m

/-- The footprint of a syllable: its text centred, its trailing punctuation preferred on the
right. -/
def syllableFootprint (size : Float) (cs : List LyricChar) : Footprint :=
  let width := lx.metrics.measure (String.join (cs.map fun c => c.pre ++ c.text)) size
  let tail := lx.metrics.measure (String.join (cs.map (·.post))) size
  if cs.any (·.occupiesSpace) then ⟨width / 2.0, width / 2.0, width / 2.0, width / 2.0 + tail⟩
  else Footprint.soft (width / 2.0) (width / 2.0 + tail)

/-- What the `i`-th section of a line asks for. -/
def request (line : RenderLine) (i : Nat) : SectionRequest :=
  let noteSize := lx.props.noteSize
  let lyricSize := lx.props.lyricSize
  let chordSize := (lx.props.num "chord_size").getD (noteSize * 0.7)
  let annotationSize := (lx.props.num "annotation_size").getD (noteSize * 0.6)
  let forceSize := (lx.props.num "force_size").getD (noteSize * 0.6)
  let columns := line.parts.foldl (fun m p =>
    let m := match p.notes[i]? with
      | some s => lx.musicFootprints noteSize m s
      | none => m
    let m := p.chords.foldl (fun m r => lx.textFootprints chordSize m r[i]?) m
    let m := p.annotations.foldl (fun m r => lx.textFootprints annotationSize m r[i]?) m
    let m := p.forces.foldl (fun m r => lx.textFootprints forceSize m r[i]?) m
    p.verses.foldl (fun m l =>
      let m := match l.substitute.bind (·[i]?) with
        | some s => lx.musicFootprints noteSize m s
        | none => m
      ((l.lyrics[i]?).getD []).foldl (fun m n =>
        match n.content with
        | .chars cs _ => putFootprint m n.startPos (lx.syllableFootprint lyricSize cs)
        | .extension => m) m) m) []
  let inset := lx.props.separatorInset
  let meterWidth := ((line.parts.head? >>= (·.notes[i]?)) >>= fun s =>
    shownMeter s (line.start + i == 0)).map (lx.metrics.measure · noteSize) |>.getD 0.0
  ⟨((line.columns[i]?).map (·.quarters)).getD 1, inset + meterWidth, inset, columns⟩

/-- The layout of every section of a line, side by side. -/
def dispatch (line : RenderLine) : List SectionLayout :=
  let lineWidth := lx.props.lineWidth
  let totalWeight := fsum (line.columns.map (·.weight))
  let count := line.columns.length
  let (out, _) := line.columns.zipIdx.foldl (fun ((out, x) : Array SectionLayout × Float) (c, i) =>
    let width := if totalWeight > layoutEpsilon then lineWidth * c.weight / totalWeight
      else lineWidth / count.toFloat
    let r := lx.request line i
    let d := dispatchCompute r width
    let positions := (r.columns.zip d.offsets).map fun ((pos, _), off) => (pos, x + off)
    let used := fmax d.total width
    (out.push ⟨c.index, x, used, d.status, positions⟩, x + used)) (#[], 0.0)
  out.toList

end LineLayout

end Jianpu
