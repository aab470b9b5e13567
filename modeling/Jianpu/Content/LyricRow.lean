import Jianpu.Content.Chunk
import Jianpu.Music.Lyric
/-!
# Lyric rows

A lyric row (`L:`) is read into syllables:

* a string literal is one syllable;
* an ASCII word is one syllable, joined with apostrophes and ASCII words that touch it across
  an apostrophe (`don't`);
* a word of other letters gives one syllable per letter, runs of ASCII letters in it staying
  together;
* `_` skips a note, `-` extends the syllable before, `/` separates and is dropped;
* punctuation attaches to the last syllable before it;
* `[role]` is drawn before the next syllable;
* `(…)` puts several syllables under one note.

Anything else is reported and dropped, as is a role that no syllable follows.

* `readLyrics` — the tokens of a lyric row.
-/

namespace Jianpu

namespace LyricRow

/-- What the reader has read, and a role waiting for its syllable with where it was
written. -/
structure Reading where
  tokens : Array LyricToken := #[]
  role : Option (String × Nat) := none

namespace Reading

/-- Adds syllables, the waiting role before the first. -/
def pushChars (r : Reading) (cs : List LyricChar) (grouped : Bool) (span : Span) : Reading :=
  let cs := match r.role, cs with
    | some (role, _), c :: rest => { c with pre := role } :: rest
    | _, _ => cs
  { r with tokens := r.tokens.push (.chars cs grouped span),
           role := if cs.isEmpty then r.role else none }

/-- Attaches punctuation to the last syllable, when the last token has one. -/
def attachPunct (r : Reading) (p : String) : Option Reading :=
  match r.tokens.back? with
  | some (.chars cs g s) =>
    match cs.getLast? with
    | some last =>
      let last := { last with post := last.post ++ p }
      let tok := LyricToken.chars (cs.dropLast ++ [last]) g s
      some { r with tokens := r.tokens.pop.push tok }
    | none => none
  | _ => none

end Reading

def isAsciiText (s : String) : Bool := s.toList.all fun c => c.toNat < 128

/-- An ASCII word joined with the apostrophes and ASCII words after it that touch it: the
text, its span and the pieces left. -/
def asciiWord (text : String) (span : Span) :
    (rest : List Piece) → String × Span × { l : List Piece // l.length ≤ rest.length }
  | (.token u) :: more =>
    let joins := match u.kind with
      | .symbol => u.content == "'"
      | .word => text.endsWith "'" && isAsciiText u.content
      | _ => false
    if u.span.start == span.stop && joins then
      let (t, s, ⟨l, h⟩) := asciiWord (text ++ u.content) (span.join u.span) more
      (t, s, ⟨l, by simp only [List.length_cons]; omega⟩)
    else (text, span, ⟨(.token u) :: more, Nat.le_refl _⟩)
  | more => (text, span, ⟨more, Nat.le_refl _⟩)

/-- The letters of a word beyond ASCII, one syllable each, with runs of ASCII letters kept
together, each with its span. -/
def splitLetters (t : Token) : List (String × Span) :=
  let step (acc : Array (String × Span) × Option (String × Nat)) (ck : Char × Nat) :=
    let (out, run) := acc
    let (c, k) := ck
    let at' := t.span.start + k
    if c.toNat < 128 then
      match run with
      | some (r, s) => (out, some (r.push c, s))
      | none => (out, some (String.ofList [c], at'))
    else
      let out := match run with
        | some (r, s) => out.push (r, ⟨s, s + r.length⟩)
        | none => out
      (out.push (String.ofList [c], ⟨at', at' + 1⟩), none)
  let (out, run) := t.content.toList.zipIdx.foldl step (#[], none)
  let out := match run with
    | some (r, s) => out.push (r, ⟨s, s + r.length⟩)
    | none => out
  out.toList

/-- The text inside a role's brackets, trimmed. -/
def innerText (src : LineText) (p : Bracketed) : String :=
  match p.items.head?, p.items.getLast? with
  | some a, some b => Text.trim (src.slice (a.span.join b.span))
  | _, _ => ""

/-- Reads the pieces of a lyric row; `fuel` bounds the nesting of groups read. -/
def readPieces (line : Nat) (src : LineText) (fuel : Nat) (r : Reading) :
    List Piece → Compiling Reading
  | [] => pure r
  | .token t :: rest => do
    match t.kind with
    | .stringLiteral =>
      readPieces line src fuel (r.pushChars [LyricChar.ofText t.content] false t.span) rest
    | .word =>
      if isAsciiText t.content then
        let (text, span, ⟨more, _⟩) := asciiWord t.content t.span rest
        readPieces line src fuel (r.pushChars [LyricChar.ofText text] false span) more
      else
        let r := (splitLetters t).foldl (fun r (text, span) =>
          r.pushChars [LyricChar.ofText text] false span) r
        readPieces line src fuel r rest
    | .symbol =>
      let s := t.content
      let r ← if s == "/" then pure r
        else if s == "_" then pure { r with tokens := r.tokens.push (.skip t.span) }
        else if s == "-" then pure { r with tokens := r.tokens.push (.extension t.span) }
        else if s.all isLyricPunct then
          match r.attachPunct s with
          | some r => pure r
          | none => do
            warn line t.span.start (.badLyricToken s)
            pure r
        else do
          warn line t.span.start (.badLyricToken s)
          pure r
      readPieces line src fuel r rest
    | _ => readPieces line src fuel r rest
  | .pair span b closed groups text :: rest => do
    let p : Bracketed := ⟨span, b, closed, groups, text⟩
    match b with
    | some .square =>
      readPieces line src fuel { r with role := some (innerText src p, span.start) } rest
    | some .paren =>
      let inner ← match fuel with
        | 0 => pure {}
        | f + 1 => readPieces line src f { role := r.role } (groups.flatten.filter (!·.isEof))
      let r := { r with role := none }
      let mut cs : List LyricChar := []
      for tok in inner.tokens.toList do
        match tok with
        | .chars c _ _ => cs := cs ++ c
        | other => warn line other.span.start (.badLyricToken text)
      if cs.isEmpty then
        warn line span.start (.badLyricToken text)
        readPieces line src fuel r rest
      else
        readPieces line src fuel { r with tokens := r.tokens.push (.chars cs true span) } rest
    | _ =>
      warn line span.start (.badLyricToken text)
      readPieces line src fuel r rest
termination_by pieces => (fuel, pieces.length)

end LyricRow

/-- The tokens of a lyric row; a role that no syllable took is reported at the end. -/
def readLyrics (line : Nat) (src : LineText) (items : List Piece) : Compiling (List LyricToken) := do
  let r ← LyricRow.readPieces line src (Piece.groupDepth items) {} items
  if let some (_, at') := r.role then warn line at' (.badLyricToken "[]")
  return r.tokens.toList

end Jianpu
