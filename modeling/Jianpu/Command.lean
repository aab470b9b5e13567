/-!
# Commands

Every line of a score that is not a delimiter starts with a command head and a colon. The
command says what the line holds and at which level of the score it belongs: the document
(0), an article (1), a fragment (2), a part (3) or a lyric line (4).

* `Command` — the nineteen commands.
* `Command.head`, `Command.longName` — the short and the long spelling of the head.
* `Command.levels` — the levels a command may stand at, a run of consecutive levels.
* `Command.nearestLevel` — the level of those closest to a given one.
* `Command.lookup` — the command a head spells, in either spelling.
* `levelName` — the name of a level in messages.

A command may be *unique* at its level (at most once per node), *required* (a node without
it is discarded), *special* (text, which cannot mix with music) or *normal*, and may take
properties in brackets after its head or not.
-/

namespace Jianpu

/-- What a line of a score holds. -/
inductive Command where
  | title | subtitle | prescript | author | footnote | scoreProps | renderProps
  | article | text | props | jumpers | partProps
  | notes | chords | annotations | force
  | lyrics | lyricAnnotation | lyricNotes
  deriving Inhabited, DecidableEq, Repr

/-- Whether a command holds text, music, or neither kind in particular. -/
inductive Speciality where
  | special | normal | neutral
  deriving Inhabited, DecidableEq, Repr

/-- Whether a command takes properties in brackets after its head. -/
inductive PropsPolicy where
  | none | optional | required
  deriving Inhabited, DecidableEq, Repr

/-- Where commas split a command's content into groups: everywhere, nowhere, or only
inside brackets. -/
inductive SplitMode where
  | always | never | others
  deriving Inhabited, DecidableEq, Repr

namespace Command

def all : List Command :=
  [title, subtitle, prescript, author, footnote, scoreProps, renderProps, article, text, props,
    jumpers, partProps, notes, chords, annotations, force, lyrics, lyricAnnotation, lyricNotes]

def head : Command → String
  | title => "Dt" | subtitle => "Ds" | prescript => "Dp" | author => "Da" | footnote => "Df"
  | scoreProps => "Sp" | renderProps => "Rp" | article => "S" | text => "T" | props => "P"
  | jumpers => "J" | partProps => "Pi" | notes => "N" | chords => "C" | annotations => "A"
  | force => "F" | lyrics => "L" | lyricAnnotation => "La" | lyricNotes => "Ln"

/-- The long head, which is also the command's name in reports. -/
def longName : Command → String
  | title => "Title" | subtitle => "Subtitle" | prescript => "Prescript" | author => "Author"
  | footnote => "Footnote" | scoreProps => "ScoreProps" | renderProps => "RenderProps"
  | article => "Article" | text => "Text" | props => "Props" | jumpers => "Jumpers"
  | partProps => "PartProps" | notes => "Notes" | chords => "Chords"
  | annotations => "Annotations" | force => "Force" | lyrics => "Lyrics"
  | lyricAnnotation => "LyricAnnotation" | lyricNotes => "LyricNotes"

def minLevel : Command → Nat
  | title | subtitle | prescript | author | footnote | scoreProps | renderProps => 0
  | article | text | props => 1
  | jumpers => 2
  | partProps | notes | chords | annotations | force => 3
  | lyrics | lyricAnnotation | lyricNotes => 4

def maxLevel : Command → Nat
  | renderProps => 2
  | props => 2
  | c => c.minLevel

def levels (c : Command) : List Nat :=
  (List.range (c.maxLevel + 1 - c.minLevel)).map (· + c.minLevel)

def unique : Command → Bool
  | prescript | author | footnote | text | chords | annotations | force | lyricAnnotation => false
  | _ => true

def required : Command → Bool
  | notes | lyrics => true
  | _ => false

/-- Text, music, or neither. -/
def speciality : Command → Speciality
  | text => .special
  | title | subtitle | prescript | author | footnote | scoreProps | renderProps | article =>
    .neutral
  | _ => .normal

def propsPolicy : Command → PropsPolicy
  | notes | lyrics => .optional
  | _ => .none

def split : Command → SplitMode
  | jumpers | notes | chords | annotations | force | lyricNotes => .others
  | _ => .never

/-- The level the command may stand at that is closest to `level`; its levels being
consecutive, that is `level` held between the lowest and the highest. -/
def nearestLevel (c : Command) (level : Nat) : Nat :=
  max c.minLevel (min level c.maxLevel)

def lookup (h : String) : Option Command :=
  all.find? fun c => c.head == h || c.longName == h

theorem lookup_notes : lookup "N" = some notes := by decide

end Command

/-- The name of a level in messages. -/
def levelName : Nat → String
  | 0 => "document"
  | 1 => "article"
  | 2 => "fragment"
  | 3 => "part"
  | 4 => "lyric line"
  | _ => "node"

/-- The level a delimiter character opens: `=` an article, `-` a fragment. -/
def delimiterLevel : Char → Option Nat
  | '=' => some 1
  | '-' => some 2
  | _ => none

end Jianpu
