import Jianpu.Score.Verses
/-!
# A performance

A performance of a music article is the list of sections as a player reads them, cut into
passes. A pass is a run of sections played on one reading; its number is what volta brackets
and jumpers test. The pass numbered 0 is the reading straight through, ignoring all marks.

* `PlayedPart`, `PlayedSection` — what one voice plays in a section, and the section as
  played: its speed (the slowest voice's), time signature and length in quarters and
  milliseconds, and when it starts.
* `Pass`, `Performance` — the passes, whether the reading was cut short by the limit of
  passes, and the sections played twice on one pass.
* `SoundingNote`, `heardNotes` — the notes heard, with ties and extensions merged into the
  note before them.
* `Performance.totalMillis` — how long the performance lasts, pass 0 aside.
-/

namespace Jianpu

/-- What one voice plays in a section, with the properties of this pass. -/
structure PlayedPart where
  signature : String
  played : Section Pitch
  props : MusicProps
  deriving Inhabited

/-- A section as played. -/
structure PlayedSection where
  index : Nat
  measureNumber : Nat
  parts : List PlayedPart
  qpm : Float
  meter : Option Meter
  lengthQuarters : Float
  lengthMillis : Float
  startMillis : Float
  deriving Inhabited

/-- The sections played on one pass. -/
structure Pass where
  number : Nat
  sections : Array PlayedSection
  deriving Inhabited

/-- A performance of an article. -/
structure Performance where
  overflow : Bool
  conflict : Bool
  conflictedSections : List Nat
  passes : Array Pass
  deriving Inhabited

/-- A note heard: its voice, its pitch as a MIDI number, when it starts and how long it
lasts. -/
structure SoundingNote where
  signature : String
  pitch : Float
  startMillis : Float
  lengthMillis : Float
  deriving Inhabited

def PlayedPart.toJson (p : PlayedPart) : Json :=
  .obj [("signature", .str p.signature), ("section", p.played.toJson), ("props", p.props.toJson)]

def PlayedSection.toJson (s : PlayedSection) : Json :=
  .obj [("index", .nat s.index), ("measureNumber", .nat s.measureNumber),
    ("parts", .list PlayedPart.toJson s.parts), ("qpm", .num s.qpm),
    ("beats", .opt Meter.toJson s.meter), ("lengthQuarters", .num s.lengthQuarters),
    ("lengthMillis", .num s.lengthMillis), ("startMillis", .num s.startMillis)]

def Pass.toJson (p : Pass) : Json :=
  .obj [("number", .nat p.number), ("sections", .arr (p.sections.toList.map PlayedSection.toJson))]

def Performance.toJson (p : Performance) : Json :=
  .obj [("overflow", .bool p.overflow), ("conflict", .bool p.conflict),
    ("conflictedSections", .list .nat p.conflictedSections),
    ("iterations", .arr (p.passes.toList.map Pass.toJson))]

def SoundingNote.toJson (n : SoundingNote) : Json :=
  .obj [("signature", .str n.signature), ("pitch", .num n.pitch),
    ("startMillis", .num n.startMillis), ("lengthMillis", .num n.lengthMillis)]

/-- The notes heard so far, and for each voice the one still held. -/
structure Hearing where
  notes : Array SoundingNote := #[]
  held : List (String × Nat) := []

namespace Hearing

/-- Hears one note of a voice in a section that starts at `start` and plays `perQuarter`
milliseconds a quarter. A pitch starts a note; a rest, drum or degree without pitch ends the
held one; an extension or voided note lengthens it. -/
def hear (perQuarter start : Float) (part : PlayedPart) (h : Hearing) (n : MusicNote Pitch) :
    Hearing :=
  let ⟨notes, held⟩ := h
  let key := part.signature
  let begin := start + n.startPos.toFloat * perQuarter
  let length := n.length.toFloat * perQuarter
  let pitch : Option (Option Float) := match n.kind with
    | .note c =>
      if n.voided then none
      else some (if c.char != '0' && !c.isDrum then c.semitones part.props else none)
    | .extend => none
  match pitch with
  | none =>
    match held.lookup key with
    | some i => ⟨notes.modify i fun s => { s with lengthMillis := s.lengthMillis + length }, held⟩
    | none => ⟨notes, held⟩
  | some (some p) =>
    let index := notes.size
    ⟨notes.push ⟨key, p, begin, length⟩, (key, index) :: held.filter (·.1 != key)⟩
  | some none => ⟨notes, held.filter (·.1 != key)⟩

def hearSection (h : Hearing) (s : PlayedSection) : Hearing :=
  let perQuarter := 60000.0 / s.qpm
  s.parts.foldl (fun h part => part.played.notes.foldl (hear perQuarter s.startMillis part) h) h

end Hearing

def heardNotes (sections : List PlayedSection) : Array SoundingNote :=
  (sections.foldl Hearing.hearSection {}).notes

namespace Performance

def performed (p : Performance) : List PlayedSection :=
  p.passes.toList.filter (·.number != 0) |>.flatMap (·.sections.toList)

def totalMillis (p : Performance) : Float :=
  p.performed.foldl (fun acc s => acc + s.lengthMillis) (-0.0)

def notes (p : Performance) : Array SoundingNote := heardNotes p.performed

end Performance

end Jianpu
