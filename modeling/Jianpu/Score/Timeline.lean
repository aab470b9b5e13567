import Jianpu.Content.TypedTree
/-!
# The timeline of an article

The fragments of a music article are laid end to end on one axis of sections, its columns.
A voice is one part followed across the fragments: the parts of a fragment are told apart
by their signature, their tags and how many parts before them in the fragment carry the
same tags. Where a voice is silent it holds placeholder sections.

* `Column` — one index of the axis, shared by all voices: its printed measure number, where
  it starts in quarters, how many quarters it lasts and its share of a line's width.
* `FragmentRange` — the columns of a fragment and the render settings there.
* `VerseLine` — a lyric line followed across the fragments: its passes, label, own melody
  where it has one, and syllables per column.
* `Voice` — a part followed across the fragments: its notes and its chord, annotation and
  force rows.
* `Timeline` — an article on the axis; `TextArticle` — an article of text.
-/

namespace Jianpu

/-- One index of an article's axis of sections, shared by all voices. -/
structure Column where
  index : Nat
  measureNumber : Nat
  startPos : Frac
  quarters : Frac
  weight : Float
  deriving Inhabited

def Column.toJson (c : Column) : Json :=
  .obj [("index", .nat c.index), ("measureNumber", .nat c.measureNumber),
    ("startPos", .str c.startPos.toString), ("quarters", .str c.quarters.toString),
    ("weight", .num c.weight)]

/-- The columns `[start, stop)` of a fragment, with the render settings in effect there. -/
structure FragmentRange where
  line : Nat
  start : Nat
  stop : Nat
  renderProps : RenderProps
  deriving Inhabited

/-- The lyric tokens a verse line has in one fragment. -/
structure PendingVerse where
  line : Nat
  start : Nat
  stop : Nat
  tokens : List LyricToken
  deriving Inhabited

/-- A lyric line followed across the fragments of an article. -/
structure VerseLine where
  signature : String
  tags : List String
  passes : List Nat
  label : Option String
  substitute : Option (Array (Section Pitch))
  lyrics : Array (List LyricNote)
  pending : List PendingVerse
  deriving Inhabited

/-- A part followed across the fragments of an article. -/
structure Voice where
  signature : String
  tags : List String
  notes : Array (Section Pitch)
  chords : Array (Array (Section ChordName))
  annotations : Array (Array (Section TextMark))
  forces : Array (Array (Section ForceMark))
  verses : Array VerseLine
  deriving Inhabited

/-- A music article with every voice on one axis of sections. -/
structure Timeline where
  line : Nat
  title : Option String
  renderProps : RenderProps
  columns : Array Column
  voices : Array Voice
  jumpers : Array Jumper
  fragments : Array FragmentRange
  deriving Inhabited

/-- An article of text: its title and paragraphs. -/
structure TextArticle where
  line : Nat
  title : Option String
  paragraphs : List String
  deriving Inhabited

def TextArticle.toJson (a : TextArticle) : Json :=
  .obj [("type", .str "text"), ("lineNumber", .nat a.line), ("title", .opt .str a.title),
    ("paragraphs", .list .str a.paragraphs)]

namespace Section

variable {α : Type}

/-- The quarters a section asks of its column: the time signature's unless the barline
after it frees the length, then what is written; placeholders ask nothing. -/
def stat (s : Section α) : Option Frac :=
  match s.body with
  | .content c => some ((constrainedLength s.props s.separators.after.barline).getD c.totalQuarters)
  | .omit _ | .empty => s.props.meter.map Meter.sectionQuarters
  | .nullish => none

def markConflict (s : Section α) : Section α := { s with conflict := true }

end Section

namespace Voice

def melodySections (v : Voice) (k : Nat) : List (Section Pitch) :=
  v.notes[k]?.toList ++ v.verses.toList.filterMap fun l => l.substitute.bind (·[k]?)

/-- Every section of the voice at a column asks its column for quarters. -/
def stats (v : Voice) (k : Nat) : List (Option Frac) :=
  (v.notes[k]?.map Section.stat).toList
    ++ v.chords.toList.filterMap (·[k]?.map Section.stat)
    ++ v.annotations.toList.filterMap (·[k]?.map Section.stat)
    ++ v.forces.toList.filterMap (·[k]?.map Section.stat)
    ++ v.verses.toList.filterMap fun l => (l.substitute.bind (·[k]?)).map Section.stat

end Voice

namespace Timeline

def sectionCount (t : Timeline) : Nat := t.columns.size

def reference (t : Timeline) (k : Nat) : Option (Section Pitch) :=
  t.voices.toList.findSome? fun v => (v.notes[k]?).filter (!·.isNullish)

/-- Every voice's section at a column marked as played twice in one pass, verse melodies
included. -/
def markConflict (t : Timeline) (k : Nat) : Timeline :=
  { t with voices := t.voices.map fun v =>
    { v with
      notes := v.notes.modify k Section.markConflict
      verses := v.verses.map fun l =>
        { l with substitute := l.substitute.map (·.modify k Section.markConflict) } } }

end Timeline

end Jianpu
