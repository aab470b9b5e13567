import Jianpu.Frac
import Jianpu.Source.Token
/-!
# Lyrics and jumpers

* `LyricChar` — a syllable with the text drawn before it (a role such as a singer's name) and
  the punctuation after it. It takes room under its note unless it is empty or punctuation
  only.
* `LyricToken` — what a lyric row reads: syllables (several in one group when written in
  parentheses), a skip `_` that leaves a note without a syllable, or an extension `-`.
* `LyricNote` — a syllable or extension placed under a note of a section.
* `Jumper` — a range of sections of a fragment, the passes on which it is played (all when
  none are given) and an octave shift applied while it is.
-/

namespace Jianpu

def isLyricPunct (c : Char) : Bool :=
  [',', '.', '!', '?', ';', ':', '，', '。', '！', '？', '；', '：', '、'].contains c

/-- A syllable. -/
structure LyricChar where
  text : String
  pre : String := ""
  post : String := ""
  occupiesSpace : Bool
  deriving Inhabited

namespace LyricChar

def ofText (t : String) : LyricChar :=
  { text := t, occupiesSpace := !t.isEmpty && !t.toList.all isLyricPunct }

def toJson (c : LyricChar) : Json :=
  .obj [("text", .str c.text), ("prefix", .str c.pre), ("postfix", .str c.post),
    ("occupiesSpace", .bool c.occupiesSpace)]

end LyricChar

/-- What a lyric row reads. -/
inductive LyricToken where
  | chars (chars : List LyricChar) (grouped : Bool) (span : Span)
  | skip (span : Span)
  | extension (span : Span)
  deriving Inhabited

namespace LyricToken

def span : LyricToken → Span
  | chars _ _ s | skip s | extension s => s

def toJson : LyricToken → Json
  | chars cs g s => .obj [("type", .str "chars"), ("chars", .list LyricChar.toJson cs),
      ("grouped", .bool g), ("range", s.toJson)]
  | skip s => .obj [("type", .str "skip"), ("range", s.toJson)]
  | extension s => .obj [("type", .str "extension"), ("range", s.toJson)]

end LyricToken

/-- What stands under a note. -/
inductive LyricNoteContent where
  | chars (chars : List LyricChar) (grouped : Bool)
  | extension
  deriving Inhabited

/-- A syllable or extension under a note. -/
structure LyricNote where
  startPos : Frac
  length : Frac
  index : Nat
  content : LyricNoteContent
  deriving Inhabited

def LyricNote.toJson (n : LyricNote) : Json :=
  .obj [("startPos", .str n.startPos.toString), ("length", .str n.length.toString),
    ("section", .nat n.index), ("content", match n.content with
      | .chars cs g => .obj [("type", .str "chars"), ("chars", .list LyricChar.toJson cs),
          ("grouped", .bool g)]
      | .extension => .obj [("type", .str "extension")])]

/-- A range `[start, stop)` of sections played on some passes, shifted by octaves. -/
structure Jumper where
  start : Nat
  stop : Nat
  iterations : List Nat
  octave : Int
  span : Span
  deriving Inhabited

namespace Jumper

def contains (j : Jumper) (k : Nat) : Bool := j.start ≤ k && k < j.stop

def accepts (j : Jumper) (n : Nat) : Bool := j.iterations.isEmpty || j.iterations.contains n

def shifted (j : Jumper) (by' : Nat) : Jumper := { j with start := j.start + by', stop := j.stop + by' }

def toJson (j : Jumper) : Json :=
  .obj [("start", .nat j.start), ("end", .nat j.stop), ("iterations", .list .nat j.iterations),
    ("octave", .int j.octave), ("range", j.span.toJson)]

end Jumper

end Jianpu
