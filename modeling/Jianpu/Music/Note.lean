import Jianpu.Music.Props
import Jianpu.Source.Token
/-!
# Notes

A row of a score is a sequence of notes. What a note shows depends on the row:

* `Pitch` — in a note row, a scale degree `1`–`7`, a rest `0`, a drum `X`/`Y`/`Z`, or another
  digit, with accidentals before it, octave marks after it and a shift in semitones;
* `ChordName` — in a chord row, a chord symbol;
* `TextMark` — in an annotation row, a word;
* `ForceMark` — in a force row, an accent mark, or none for `0`.

`NoteGlyph` says for each whether a note of it sounds and how it is shown.

* `MusicNote` — a note or a `-` that extends the note before it, with its position and
  length in quarters, its attributes and suffixes (tie `~`, slur `*`, dots).
* `Decoration` — a tuplet, tie or slur spanning positions.
* `Pitch.semitones` — the MIDI number of a scale degree under given properties: 60 for `1`
  in C, plus key, degree, octaves, shift, accidentals and transposition, summed in that
  order.
-/

namespace Jianpu

/-- An accidental before a note. -/
inductive Accidental where
  | sharp | flat | halfSharp | natural | halfFlat
  deriving Inhabited, DecidableEq, Repr

namespace Accidental

def ofChar : Char → Option Accidental
  | '#' => some sharp | 'b' => some flat | '^' => some halfSharp
  | '%' => some natural | '$' => some halfFlat
  | _ => none

def semitones : Accidental → Float
  | sharp => 1.0 | flat => -1.0 | halfSharp => 0.5 | natural => 0.0 | halfFlat => -0.5

def glyph : Accidental → Char
  | sharp => '#' | flat => 'b' | halfSharp => '^' | natural => '%' | halfFlat => '$'

def name : Accidental → String
  | sharp => "sharp" | flat => "flat" | halfSharp => "halfSharp" | natural => "natural"
  | halfFlat => "halfFlat"

end Accidental

/-- What a note, its row and its attributes show and how it is read aloud. -/
class NoteGlyph (α : Type) where
  /-- A note of it makes a sound. -/
  sounding : α → Bool
  /-- Its text. -/
  display : α → String
  /-- Its record. -/
  toJson : α → Json

/-- A note of a note row. -/
structure Pitch where
  char : Char
  accidentals : List Accidental := []
  octave : Int := 0
  delta : Int := 0
  deriving Inhabited

namespace Pitch

def isMusicChar (c : Char) : Bool := c.isDigit || c = 'X' || c = 'Y' || c = 'Z'

def isDrum (p : Pitch) : Bool := p.char = 'X' || p.char = 'Y' || p.char = 'Z'

def degreeSemitones : Nat → Int
  | 1 => 0 | 2 => 2 | 3 => 4 | 4 => 5 | 5 => 7 | 6 => 9 | 7 => 11 | _ => 0

/-- The MIDI number of a scale degree `1`–`7`; none for rests, drums and other digits. -/
def semitones (p : Pitch) (props : MusicProps) : Option Float :=
  let d := p.char.toNat - '0'.toNat
  if p.char.isDigit && 1 ≤ d && d ≤ 7 then
    let base := (props.base.map Tuning.semitones).getD 0
    let accidental := p.accidentals.foldl (fun acc a => acc + a.semitones) (-0.0)
    some (60.0 + Decimal.intToFloat base + Decimal.intToFloat (degreeSemitones d)
      + Decimal.intToFloat (12 * p.octave) + Decimal.intToFloat p.delta + accidental
      + props.transpose)
  else none

def display (p : Pitch) : String :=
  String.ofList (p.accidentals.map Accidental.glyph ++ [p.char])

def toJson (p : Pitch) : Json :=
  .obj [("char", .str (String.ofList [p.char])),
    ("accidentals", .list (.str ·.name) p.accidentals), ("octave", .int p.octave),
    ("delta", .int p.delta)]

instance : NoteGlyph Pitch := ⟨fun p => p.char != '0', display, toJson⟩

end Pitch

/-- A chord symbol; empty for a held chord `0`. -/
structure ChordName where
  text : String
  deriving Inhabited

instance : NoteGlyph ChordName :=
  ⟨fun c => !c.text.isEmpty, ChordName.text, fun c => .obj [("text", .str c.text)]⟩

/-- A word of an annotation row; empty for `0`. -/
structure TextMark where
  text : String
  deriving Inhabited

instance : NoteGlyph TextMark :=
  ⟨fun c => !c.text.isEmpty, TextMark.text, fun c => .obj [("text", .str c.text)]⟩

/-- An accent mark. -/
inductive ForceKind where
  | accent | strong | tenuto | staccatissimo
  deriving Inhabited, DecidableEq

namespace ForceKind

def ofChar : Char → Option ForceKind
  | '>' => some accent | '^' => some strong | '_' => some tenuto | '!' => some staccatissimo
  | _ => none

def glyph : ForceKind → String
  | accent => ">" | strong => "^" | tenuto => "_" | staccatissimo => "!"

def name : ForceKind → String
  | accent => "accent" | strong => "strong" | tenuto => "tenuto"
  | staccatissimo => "staccatissimo"

end ForceKind

/-- A note of a force row: an accent mark, or none. -/
structure ForceMark where
  kind : Option ForceKind
  deriving Inhabited

instance : NoteGlyph ForceMark :=
  ⟨fun f => f.kind.isSome, fun f => (f.kind.map ForceKind.glyph).getD "",
   fun f => .obj [("kind", .opt (.str ·.name) f.kind)]⟩

/-- An ornament written in a note's attributes. -/
inductive Decorator where
  | staccato | accent | tenuto | marcato | fermata | trill | mordent | turn
  deriving Inhabited, DecidableEq

namespace Decorator

def parse : String → Option Decorator
  | "." => some staccato | ">" => some accent | "-" => some tenuto | "^" => some marcato
  | "fm" => some fermata | "tr" => some trill | "mr" => some mordent | "tn" => some turn
  | _ => none

def name : Decorator → String
  | staccato => "staccato" | accent => "accent" | tenuto => "tenuto" | marcato => "marcato"
  | fermata => "fermata" | trill => "trill" | mordent => "mordent" | turn => "turn"

end Decorator

/-- An attribute of a note. -/
inductive NoteAttr where
  | decorator (d : Decorator)
  | grace (after : Bool) (notes : List Pitch)
  | slideIn
  | slideOut
  | delta (semitones : Int)
  | stack (notes : List Pitch)
  deriving Inhabited

/-- The attribute as a tagged record. -/
def NoteAttr.toJson : NoteAttr → Json
  | .decorator d => .obj [("type", .str "decorator"), ("decorator", .str d.name)]
  | .grace a ns => .obj [("type", .str "grace"), ("after", .bool a),
      ("notes", .list Pitch.toJson ns)]
  | .slideIn => .obj [("type", .str "slideIn")]
  | .slideOut => .obj [("type", .str "slideOut")]
  | .delta s => .obj [("type", .str "delta"), ("semitones", .int s)]
  | .stack ns => .obj [("type", .str "stack"), ("notes", .list Pitch.toJson ns)]

/-- The marks after a note: tie, slur and the number of dots. -/
structure NoteSuffix where
  tie : Bool := false
  slur : Bool := false
  dots : Nat := 0
  deriving Inhabited

/-- A note showing a glyph, or a `-` extending the note before it. -/
inductive NoteKind (α : Type) where
  | note (c : α)
  | extend
  deriving Inhabited

/-- A note of a row. -/
structure MusicNote (α : Type) where
  line : Nat
  span : Span
  startPos : Frac
  length : Frac
  attrs : List NoteAttr
  suffix : NoteSuffix
  voided : Bool
  kind : NoteKind α
  deriving Inhabited

namespace MusicNote

variable {α β : Type}

/-- The glyph of a note, none for an extension. -/
def glyph (n : MusicNote α) : Option α :=
  match n.kind with
  | .note c => some c
  | .extend => none

def isSounding [NoteGlyph α] (n : MusicNote α) : Bool :=
  !n.voided && (n.glyph.map NoteGlyph.sounding).getD false

def mapGlyph (f : α → β) (n : MusicNote α) : MusicNote β :=
  { n with kind := match n.kind with
    | .note c => .note (f c)
    | .extend => .extend }

/-- The note as a record, its kind flattened into it. -/
def toJson [NoteGlyph α] (n : MusicNote α) : Json :=
  let kind : List (String × Json) := match n.kind with
    | .note c => [("type", .str "note"), ("char", NoteGlyph.toJson c)]
    | .extend => [("type", .str "extend")]
  .obj ([("lineNumber", .nat n.line), ("range", n.span.toJson),
    ("startPos", .str n.startPos.toString), ("length", .str n.length.toString),
    ("attrs", .list NoteAttr.toJson n.attrs),
    ("suffix", .obj [("tie", .bool n.suffix.tie), ("slur", .bool n.suffix.slur),
      ("dots", .nat n.suffix.dots)]),
    ("voided", .bool n.voided)] ++ kind)

end MusicNote

/-- What a decoration draws. -/
inductive DecorationKind where
  | tuplet | tie | slur
  deriving Inhabited, DecidableEq

/-- A tuplet bracket, tie or slur from one position to another; a piece of one that crosses
sections leaves the open end empty. -/
structure Decoration where
  kind : DecorationKind
  startPos : Option Frac
  endPos : Option Frac
  label : Option String
  deriving Inhabited

def Decoration.toJson (d : Decoration) : Json :=
  .obj [("kind", .str (match d.kind with | .tuplet => "tuplet" | .tie => "tie" | .slur => "slur")),
    ("startPos", .opt (.str ·.toString) d.startPos), ("endPos", .opt (.str ·.toString) d.endPos),
    ("label", .opt .str d.label)]

end Jianpu
