import Jianpu.Content.Sections
import Jianpu.Content.PropItem
import Jianpu.Content.JumperRow
import Jianpu.Content.LyricRow
/-!
# Lines with their meaning

Each command line of the tree is read for what it holds: text, properties, render
settings, jumpers, a row of sections, or a verse of lyrics.

* `NoteRow` — a row's voice tags and its sections, with the context after its last barline
  and what its barlines changed (neither is part of its record).
* `Verse` — a lyric line's tags, the passes it is sung on (empty for all) and its tokens.
* `LineContent`, `TypedLine` — what a line holds, and the line with it.
* `GroupedLine.noteRow` — a row read under a source of properties.
* `GroupedLine.readPlain` — what a line holds when it needs no musical context; a row read
  this way starts from the default properties.
-/

namespace Jianpu

/-- A row of sections with its voice tags. -/
structure NoteRow (α : Type) where
  tags : List String
  sections : List (Section α)
  finalProps : MusicProps
  variation : MusicPatch
  deriving Inhabited

def NoteRow.toJson {α : Type} [NoteGlyph α] (r : NoteRow α) : Json :=
  .obj [("tags", .list .str r.tags), ("sections", .list Section.toJson r.sections)]

/-- A verse of lyrics: its tags, the passes it is sung on (empty for all) and its tokens. -/
structure Verse where
  tags : List String
  passes : List Nat
  tokens : List LyricToken
  deriving Inhabited

def Verse.toJson (v : Verse) : Json :=
  .obj [("tags", .list .str v.tags), ("passes", .list .nat v.passes),
    ("tokens", .list LyricToken.toJson v.tokens)]

/-- Splits a lyric line's properties into passes, the positive integers (trailing dots
aside), and tags, the rest. -/
def Verse.splitProps (texts : List String) : List Nat × List String :=
  texts.foldr (fun t (passes, tags) =>
    match Decimal.readU32 (String.ofList (t.toList.reverse.dropWhile (· == '.')).reverse) with
    | some n => if n > 0 then (n :: passes, tags) else (passes, t :: tags)
    | none => (passes, t :: tags)) ([], [])

/-- What a line holds. -/
inductive LineContent where
  | text (s : String)
  | musicProps (p : MusicPatch)
  | renderProps (p : RenderProps)
  | jumpers (js : List Jumper)
  | notes (r : NoteRow Pitch)
  | chords (r : NoteRow ChordName)
  | annotations (r : NoteRow TextMark)
  | force (r : NoteRow ForceMark)
  | lyrics (v : Verse)
  deriving Inhabited

/-- The content as a record tagged with its kind. -/
def LineContent.toJson (c : LineContent) : Json :=
  let (kind, value) : String × Json := match c with
    | .text s => ("text", .str s)
    | .musicProps p => ("musicProps", p.toJson)
    | .renderProps p => ("renderProps", p.toJson)
    | .jumpers js => ("jumpers", .list Jumper.toJson js)
    | .notes r => ("notes", r.toJson)
    | .chords r => ("chords", r.toJson)
    | .annotations r => ("annotations", r.toJson)
    | .force r => ("force", r.toJson)
    | .lyrics v => ("lyrics", v.toJson)
  .obj [("type", .str kind), ("value", value)]

/-- A line of the tree with what it holds. -/
structure TypedLine where
  line : Nat
  command : Command
  head : String
  content : LineContent
  deriving Inhabited

def TypedLine.toJson (l : TypedLine) : Json :=
  .obj [("lineNumber", .nat l.line), ("command", .str l.command.longName), ("head", .str l.head),
    ("content", l.content.toJson)]

namespace GroupedLine

/-- The text of a line: the content of a lone string literal, else the line's text. -/
def plainText (g : GroupedLine) : String :=
  match g.content.items with
  | [.token t] => if t.kind == .stringLiteral then t.content else g.text
  | _ => g.text

def musicPatch (g : GroupedLine) : Compiling MusicPatch :=
  readMusicPatch g.line (chunks (LineText.ofLine g) g.content.items)

/-- The row of a line, its sections read under `source`. -/
def noteRow {α : Type} [NoteHead α] (g : GroupedLine) (source : PropsSource) :
    Compiling (NoteRow α) := do
  let r ← readSections (α := α) ⟨g.line, LineText.ofLine g⟩ g.content.items source
  pure ⟨propTexts g.props, r.sections, r.finalProps, r.variation⟩

/-- What a line holds when read without a musical context. -/
def readPlain (g : GroupedLine) : Compiling LineContent := do
  let src := LineText.ofLine g
  let items := g.content.items
  match g.command with
  | .title | .subtitle | .prescript | .author | .footnote | .article | .text
  | Command.lyricAnnotation => pure (.text g.plainText)
  | .scoreProps | .props | .partProps => .musicProps <$> g.musicPatch
  | .renderProps => .renderProps <$> readRenderProps g.line src (chunks src items)
  | .jumpers => .jumpers <$> readJumpers g.line src items
  | .lyrics =>
    let (passes, tags) := Verse.splitProps (propTexts g.props)
    pure (.lyrics ⟨tags, passes, ← readLyrics g.line src items⟩)
  | .notes | .lyricNotes => .notes <$> g.noteRow (.running {})
  | .chords => .chords <$> g.noteRow (.running {})
  | .annotations => .annotations <$> g.noteRow (.running {})
  | .force => .force <$> g.noteRow (.running {})

def typed (g : GroupedLine) (c : LineContent) : TypedLine := ⟨g.line, g.command, g.head, c⟩

end GroupedLine

theorem splitProps_passes : Verse.splitProps ["1.", "alto", "0", "2"] = ([1, 2], ["alto", "0"]) := by
  decide

end Jianpu
