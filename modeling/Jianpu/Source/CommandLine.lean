import Jianpu.Command
import Jianpu.Source.Line
import Jianpu.Source.Token
/-!
# Command lines and delimiters

Each logical line of a score is one of three things:

* a *delimiter*: nothing but repetitions of one `=` or `-` symbol, opening a new article or
  fragment;
* a *command line*: a word naming a command, optional properties in brackets, a colon
  outside any bracket, the content, and perhaps a trailing comment;
* nothing: a blank or comment-only line, or a line the compiler cannot read (a warning).

* `ScoreLine` — a delimiter or a command line.
* `CommandLine` — a command line with its properties' tokens, its content tokens (each list
  closed by an end-of-text token), its trimmed text and where that text starts.
* `ScoreLine.classify` — the score lines of a whole text, raising the tokenizer's issues and
  its own.

Properties are well formed when they are one `[...]` group right after the head whose
brackets close only at its end; otherwise the compiler reports it and still reads what
stands between head and colon, without the outer brackets.
-/

namespace Jianpu

/-- A command line. `props` and `content` end with an end-of-text token. -/
structure CommandLine where
  line : Nat
  command : Command
  head : String
  props : Option (List Token)
  content : List Token
  text : String
  textOffset : Nat
  comment : Option String
  lineText : String
  deriving Inhabited

/-- A line that matters to the score. -/
inductive ScoreLine where
  | delimiter (line level : Nat)
  | command (c : CommandLine)
  deriving Inhabited

namespace ScoreLine

def isOpen (t : Token) : Bool :=
  t.kind == .symbol && ["(", "[", "[[", "\x7b"].contains t.content

def isClose (t : Token) : Bool :=
  t.kind == .symbol && [")", "]", "]]", "\x7d"].contains t.content

/-- The position of the first colon outside all brackets; an unmatched closing bracket
does not take the depth below zero. -/
def topLevelColon (tokens : List Token) : Option Nat :=
  let rec go (depth i : Nat) : List Token → Option Nat
    | [] => none
    | t :: rest =>
      if isOpen t then go (depth + 1) (i + 1) rest
      else if isClose t then go (depth - 1) (i + 1) rest
      else if depth == 0 && t.isSymbol ":" then some i
      else go depth (i + 1) rest
  go 0 0 tokens

/-- The level a line of equal delimiter symbols opens. -/
def delimiterRun (meaningful : List Token) : Option Nat :=
  match meaningful with
  | [] => none
  | first :: _ =>
    match first.content.toList with
    | [c] =>
      if first.kind != .symbol then none
      else (delimiterLevel c).filter fun _ =>
        meaningful.all fun t => t.kind == .symbol && t.content == first.content
    | _ => none

/-- Brackets balance within the properties and the outer pair closes only at the end. -/
def depthOk (between : List Token) : Bool :=
  let n := between.length
  let step (acc : Int × Bool) (it : Token × Nat) : Int × Bool :=
    let (depth, ok) := acc
    let (t, i) := it
    if isOpen t then (depth + 1, ok)
    else if isClose t then (depth - 1, ok && !(depth - 1 == 0 && i + 1 != n))
    else (depth, ok)
  let (depth, ok) := (between.zipIdx).foldl step (0, true)
  ok && depth == 0

/-- The tokens of the properties, without their outer brackets and closed by an
end-of-text token; a malformed property list is an error at its first token. -/
def extractProps (line : Nat) (between : List Token) (colonAt : Nat) :
    Compiling (Option (List Token)) := do
  let between := between.filter (·.kind != .comment)
  match between.head?, between.getLast? with
  | some first, some last =>
    let opens := first.isSymbol "["
    let closes := last.isSymbol "]"
    let wellFormed := opens && closes && depthOk between && between.length ≥ 2
    if !wellFormed then error line first.span.start .badCommandFormat
    let start := if opens then 1 else 0
    let stop := if closes && between.length > start then between.length - 1 else between.length
    let inner := (between.take stop).drop start
    let eofAt := if closes then last.span.start else colonAt
    pure (some (inner ++ [Token.eof eofAt]))
  | _, _ => pure none

/-- Reads one logical line from its tokens. -/
def ofTokens (line : Nat) (lineText : String) (tokens : List Token) :
    Compiling (Option ScoreLine) := do
  let meaningful := tokens.filter fun t =>
    t.kind != .eof && t.kind != .comment && t.kind != .eol
  match meaningful with
  | [] => pure none
  | first :: _ =>
    match delimiterRun meaningful with
    | some level => pure (some (.delimiter line level))
    | none =>
      match (if first.isWord then topLevelColon tokens else none) with
      | none =>
        warn line first.span.start .unreadableLine
        pure none
      | some colon =>
        match Command.lookup first.content with
        | none =>
          warn line first.span.start (.unknownCommand first.content)
          pure none
        | some cmd =>
          let colonTok := tokens[colon]?.getD (Token.eof 0)
          let props ← extractProps line ((tokens.take colon).drop 1) colonTok.span.start
          let chars := lineText.toList
          let after := tokens.drop (colon + 1)
          let comment := (after.reverse.find? (·.kind != .eof)).filter (·.kind == .comment)
          let contentEnd := (comment.map (·.span.start)).getD chars.length
          let contentStart := colonTok.span.stop
          let raw := (chars.take contentEnd).drop contentStart
          let leading := (raw.takeWhile Text.isBlank).length
          let content := after.filter fun t =>
            t.kind != .comment && t.kind != .eof && t.kind != .eol
          pure (some (.command {
            line, command := cmd, head := first.content, props
            content := content ++ [Token.eof contentEnd]
            text := String.ofList (Text.trimChars raw)
            textOffset := contentStart + leading
            comment := comment.map (·.content)
            lineText }))

/-- The score lines of a text. Each logical line is tokenized, its issues raised, and then
read. -/
def classify (text : String) : Compiling (List ScoreLine) := do
  let mut out : Array ScoreLine := #[]
  for l in LogicalLine.split text do
    let (tokens, issues) := Token.scan l.line l.text
    modify fun j => { j with issues := j.issues ++ issues }
    if let some s ← ofTokens l.line l.text tokens.toList then
      out := out.push s
  pure out.toList

end ScoreLine

def CommandLine.contentSpan (c : CommandLine) : Span :=
  ⟨c.textOffset, c.textOffset + c.text.length⟩

end Jianpu
