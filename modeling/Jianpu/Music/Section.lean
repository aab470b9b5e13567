import Jianpu.Music.Note
/-!
# Sections and barlines

A row is cut into sections by barlines. A barline has a glyph — `|`, `||`, `|||`, `||:`,
`:||`, `:||:`, a `/` that only separates, or a glyph with `/` in it that marks the section
before as free of the time signature — and attributes in three slots: `{…}` before it, `[…]`
right after it, and `{…}` after that.

* `Barline` — the twelve glyphs, with whether each may open or close a row and how it reads
  at the end and at the start of a cut-off line.
* `BarlineAttr` — a label, a time signature, a tempo, a shift, a weight, a reset of the
  pass count, a volta number, a repeat count, a jump, a segno or a portal.
* `Separator` — a barline with its attributes and span; `Separators` — the barlines around
  a section.
* `Section` — one section of a row: its identity, span, place, barlines, properties, and
  body (notes, an omission `...`, an empty section, or a padding section that stands for
  nothing written).
-/

namespace Jianpu

/-- A barline glyph. -/
inductive Barline where
  | slash | bar | double | terminal | repeatStart | repeatEnd | repeatBoth
  | slashBar | slashDouble | slashTerminal | slashRepeatStart | slashRepeatEnd
  deriving Inhabited, DecidableEq, Repr

namespace Barline

def all : List Barline :=
  [slash, bar, double, terminal, repeatStart, repeatEnd, repeatBoth, slashBar, slashDouble,
    slashTerminal, slashRepeatStart, slashRepeatEnd]

def glyph : Barline → String
  | slash => "/" | bar => "|" | double => "||" | terminal => "|||" | repeatStart => "||:"
  | repeatEnd => ":||" | repeatBoth => ":||:" | slashBar => "/|" | slashDouble => "/||"
  | slashTerminal => "/|||" | slashRepeatStart => "/||:" | slashRepeatEnd => ":/||"

def parse (g : String) : Option Barline := all.find? (·.glyph == g)

def beginOk : Barline → Bool
  | terminal | repeatEnd | repeatBoth | slashTerminal | slashRepeatEnd => false
  | _ => true

def endOk : Barline → Bool
  | repeatStart | repeatBoth | slashRepeatStart => false
  | _ => true

/-- How the barline reads when a line is cut after it. -/
def after : Barline → Barline
  | repeatStart => double
  | repeatBoth => repeatEnd
  | slashRepeatStart => slashDouble
  | b => b

def before : Barline → Barline
  | repeatStart | repeatBoth | slashRepeatStart => repeatStart
  | _ => slash

def isRepeatStart : Barline → Bool
  | repeatStart | repeatBoth | slashRepeatStart => true
  | _ => false

def isRepeatEnd : Barline → Bool
  | repeatEnd | repeatBoth | slashRepeatEnd => true
  | _ => false

def isTerminal : Barline → Bool
  | terminal | slashTerminal => true
  | _ => false

def isUnconstrained (b : Barline) : Bool := b.glyph.toList.contains '/'

end Barline

/-- A jump of the road map. -/
inductive JumpKind where
  | dalSegno | daCapo | fine
  deriving Inhabited, DecidableEq

def JumpKind.name : JumpKind → String
  | .dalSegno => "dalSegno" | .daCapo => "daCapo" | .fine => "fine"

/-- A change of pitch from a barline on. -/
inductive Shift where
  | transpose (semitones : Float)
  | tuning (base : Tuning)
  deriving Inhabited

/-- An attribute of a barline. -/
inductive BarlineAttr where
  | label (text : String)
  | meter (m : Meter)
  | tempo (t : Tempo)
  | shift (s : Shift)
  | weight (w : Float)
  | reset
  | iter (number : Nat)
  | times (count : Nat)
  | jump (j : JumpKind)
  | segno
  | portal
  deriving Inhabited

/-- Where an attribute is written around its barline. -/
inductive AttrSlot where
  | pre | own | post
  deriving Inhabited, DecidableEq

namespace BarlineAttr

def name : BarlineAttr → String
  | label .. => "label" | meter .. => "beats" | tempo .. => "qpm" | shift .. => "shift"
  | weight .. => "weight" | reset => "reset" | iter .. => "iter" | times .. => "times"
  | jump .. => "jump" | segno => "segno" | portal => "portal"

/-- The slots the attribute may stand in: a label anywhere, a jump before or right after the
barline, a segno or portal right after or after, and all others right after. -/
def allowedIn (a : BarlineAttr) (slot : AttrSlot) : Bool :=
  match a with
  | label .. => true
  | jump .. => slot == .pre || slot == .own
  | segno | portal => slot == .own || slot == .post
  | _ => slot == .own

def forbiddenAtBegin : BarlineAttr → Bool
  | iter .. | times .. | jump .. => true
  | _ => false

def forbiddenAtEnd : BarlineAttr → Bool
  | meter .. | tempo .. | shift .. | weight .. | reset | segno | portal => true
  | _ => false

/-- The attribute as a tagged record. -/
def toJson : BarlineAttr → Json
  | label t => .obj [("type", .str "label"), ("text", .str t)]
  | meter m => .obj [("type", .str "beats"), ("beats", m.toJson)]
  | tempo t => .obj [("type", .str "qpm"), ("qpm", t.toJson)]
  | shift s => .obj [("type", .str "shift"), ("shift", match s with
      | .transpose v => .obj [("type", .str "transpose"), ("semitones", .num v)]
      | .tuning b => .obj [("type", .str "tuning"), ("base", b.toJson)])]
  | weight w => .obj [("type", .str "weight"), ("weight", .num w)]
  | reset => .obj [("type", .str "reset")]
  | iter n => .obj [("type", .str "iter"), ("number", .nat n)]
  | times n => .obj [("type", .str "times"), ("count", .nat n)]
  | jump j => .obj [("type", .str "jump"), ("jump", .str j.name)]
  | segno => .obj [("type", .str "segno")]
  | portal => .obj [("type", .str "portal")]

end BarlineAttr

/-- The attributes of a barline by slot. -/
structure BarlineAttrs where
  pre : List BarlineAttr := []
  own : List BarlineAttr := []
  post : List BarlineAttr := []
  deriving Inhabited

namespace BarlineAttrs

def all (a : BarlineAttrs) : List BarlineAttr := a.pre ++ a.own ++ a.post

def iterations (a : BarlineAttrs) : List Nat :=
  a.own.filterMap fun | .iter n => some n | _ => none

def times (a : BarlineAttrs) : Option Nat :=
  a.own.findSome? fun | .times n => some n | _ => none

def jump (a : BarlineAttrs) : Option JumpKind :=
  (a.pre ++ a.own).findSome? fun | .jump j => some j | _ => none

def hasSegno (a : BarlineAttrs) : Bool := a.all.any fun | .segno => true | _ => false

def hasPortal (a : BarlineAttrs) : Bool := a.all.any fun | .portal => true | _ => false

def hasReset (a : BarlineAttrs) : Bool := a.own.any fun | .reset => true | _ => false

def weight (a : BarlineAttrs) : Option Float :=
  a.own.findSome? fun | .weight w => some w | _ => none

def toJson (a : BarlineAttrs) : Json :=
  .obj [("pre", .list BarlineAttr.toJson a.pre), ("self", .list BarlineAttr.toJson a.own),
    ("post", .list BarlineAttr.toJson a.post)]

end BarlineAttrs

/-- A barline as written: glyph, attributes and span. -/
structure Separator where
  barline : Barline
  attrs : BarlineAttrs
  span : Span
  deriving Inhabited

namespace Separator

def virtualAt (n : Nat) : Separator := ⟨.slash, {}, Span.emptyAt n⟩

def toJson (s : Separator) : Json :=
  .obj [("char", .str s.barline.glyph), ("attrs", s.attrs.toJson), ("range", s.span.toJson)]

end Separator

/-- The barlines around a section, and how the closing one reads at the start of a line. -/
structure Separators where
  before : Separator
  after : Separator
  next : Barline
  deriving Inhabited

def Separators.toJson (s : Separators) : Json :=
  .obj [("before", s.before.toJson), ("after", s.after.toJson), ("next", .str s.next.glyph)]

/-- The length a section must have: the time signature's section length, unless the closing
barline frees it. -/
def constrainedLength (props : MusicProps) (after : Barline) : Option Frac :=
  if after.isUnconstrained then none else props.meter.map Meter.sectionQuarters

/-- Which written section a section is: its line, its position in the row, and a serial
number that copies of it share. -/
structure IdCard where
  line : Nat
  index : Nat
  serial : Nat
  deriving Inhabited

def IdCard.toJson (c : IdCard) : Json :=
  .obj [("lineNumber", .nat c.line), ("index", .nat c.index), ("uuid", .str s!"s{c.serial}")]

/-- How a section's length compares with the time signature. -/
inductive SectionValidation where
  | ok | less | more
  deriving Inhabited, DecidableEq

/-- The notes of a section and what is drawn over them. -/
structure SectionContent (α : Type) where
  notes : List (MusicNote α)
  decoration : List Decoration
  totalQuarters : Frac
  validation : SectionValidation
  leftSplit : Bool := false
  leftSplitVoid : Bool := false
  rightSplit : Bool := false
  deriving Inhabited

/-- What a section holds. -/
inductive SectionBody (α : Type) where
  | content (c : SectionContent α)
  | omit (count : Option Nat)
  | empty
  | nullish
  deriving Inhabited

/-- A section of a row. -/
structure Section (α : Type) where
  card : IdCard
  span : Span
  ordinal : Nat
  startPos : Frac
  separators : Separators
  props : MusicProps
  conflict : Bool
  body : SectionBody α
  deriving Inhabited

namespace Section

variable {α β : Type}

/-- The notes and decorations, if the section has them. -/
def content? (s : Section α) : Option (SectionContent α) :=
  match s.body with
  | .content c => some c
  | _ => none

def isNullish (s : Section α) : Bool :=
  match s.body with
  | .nullish => true
  | _ => false

def notes (s : Section α) : List (MusicNote α) :=
  (s.content?.map SectionContent.notes).getD []

def nullish (line serial : Nat) (props : MusicProps) : Section α :=
  ⟨⟨line, 0, serial⟩, ⟨0, 0⟩, 0, 0, ⟨Separator.virtualAt 0, Separator.virtualAt 0, .slash⟩,
    props, false, .nullish⟩

def mapGlyphs (f : α → β) (s : Section α) : Section β :=
  { s with body := match s.body with
    | .content c => .content { c with notes := c.notes.map (MusicNote.mapGlyph f) }
    | .omit n => .omit n
    | .empty => .empty
    | .nullish => .nullish }

/-- Changes the notes and decorations, if the section has them. -/
def modifyContent (s : Section α) (f : SectionContent α → SectionContent α) : Section α :=
  match s.body with
  | .content c => { s with body := .content (f c) }
  | _ => s

/-- The body as a tagged record. -/
def bodyJson [NoteGlyph α] : SectionBody α → Json
  | .content c => .obj [("type", .str "section"), ("notes", .list MusicNote.toJson c.notes),
      ("decoration", .list Decoration.toJson c.decoration),
      ("totalQuarters", .str c.totalQuarters.toString),
      ("validation", .str (match c.validation with
        | .ok => "ok" | .less => "less" | .more => "more")),
      ("leftSplit", .bool c.leftSplit), ("leftSplitVoid", .bool c.leftSplitVoid),
      ("rightSplit", .bool c.rightSplit)]
  | .omit n => .obj [("type", .str "omit"), ("count", .opt .nat n)]
  | .empty => .obj [("type", .str "empty")]
  | .nullish => .obj [("type", .str "nullish")]

def toJson [NoteGlyph α] (s : Section α) : Json :=
  .obj [("idCard", s.card.toJson), ("range", s.span.toJson), ("ordinal", .nat s.ordinal),
    ("startPos", .str s.startPos.toString), ("separator", s.separators.toJson),
    ("musicalProps", s.props.toJson),
    ("structureValidation", if s.conflict then .str "conflict" else .null),
    ("body", bodyJson s.body)]

end Section

end Jianpu
