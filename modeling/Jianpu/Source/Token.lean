import Jianpu.Issue
import Jianpu.Text.Blank
import Jianpu.Text.Letter
/-!
# Tokens of a line

A line of a score is read as a sequence of tokens, each with its character span:

* a *word*: a run of word characters (`Text.isWordChar`);
* a *symbol*: `[[` or `]]`, or any other single character that is no blank, no control
  character, no word character and no quote;
* a *string literal* in double quotes, with the escapes `\\`, `\"`, `\r`, `\n`, `\t`,
  `\xHH` and `\uHHHH`;
* a *comment*: `//` to the end of the line, or `/*` to the next `*/`;
* a line end, and a final end-of-text token.

Blanks and control characters separate tokens and are skipped. A token is at the *line head*
when it is the first of the text or follows a line end.

An unclosed string or block comment and a bad escape are errors, raised at the character
where the literal or escape starts; the literal still becomes a token, a bad escape keeping
its backslash and the character after it.

* `Token.scan` — the tokens of a text and the issues found.
-/

namespace Jianpu

/-- A half-open range `[start, stop)` of character positions. -/
structure Span where
  start : Nat
  stop : Nat
  deriving Inhabited, DecidableEq, Repr

namespace Span

def emptyAt (n : Nat) : Span := ⟨n, n⟩

def join (a b : Span) : Span := ⟨min a.start b.start, max a.stop b.stop⟩

def isEmpty (s : Span) : Bool := s.stop ≤ s.start

def toJson (s : Span) : Json := .obj [("start", .nat s.start), ("end", .nat s.stop)]

end Span

/-- What a token is. -/
inductive TokenKind where
  | word | symbol | stringLiteral | comment | eol | eof
  deriving Inhabited, DecidableEq, Repr

/-- The name of a token kind in reports. -/
def TokenKind.name : TokenKind → String
  | .word => "word"
  | .symbol => "symbol"
  | .stringLiteral => "stringLiteral"
  | .comment => "comment"
  | .eol => "eol"
  | .eof => "eof"

/-- A token: its kind, its content (the value of a string literal, the text otherwise), its
span and whether it starts a line. -/
structure Token where
  kind : TokenKind
  content : String
  span : Span
  lineHead : Bool
  deriving Inhabited

namespace Token

def eof (n : Nat) : Token := ⟨.eof, "", Span.emptyAt n, false⟩

def isSymbol (t : Token) (s : String) : Bool := t.kind == .symbol && t.content == s

def isWord (t : Token) : Bool := t.kind == .word

def isEof (t : Token) : Bool := t.kind == .eof

def toJson (t : Token) : Json :=
  .obj [("kind", .str t.kind.name), ("content", .str t.content), ("range", t.span.toJson),
    ("lineHead", .bool t.lineHead)]

def isSymbolChar (c : Char) : Bool :=
  !Text.isBlank c && !Text.isControl c && !Text.isWordChar c && c != '"'

def hexValue (c : Char) : Option Nat :=
  if c.isDigit then some (c.toNat - '0'.toNat)
  else if 'a' ≤ c && c ≤ 'f' then some (c.toNat - 'a'.toNat + 10)
  else if 'A' ≤ c && c ≤ 'F' then some (c.toNat - 'A'.toNat + 10)
  else none

/-- The character of exactly `n` hexadecimal digits at the head of a list, when they name a
character (surrogates do not). -/
def hexChar (n : Nat) (cs : List Char) : Option Char :=
  let ds := cs.take n
  if ds.length != n then none
  else do
    let v ← ds.foldl (fun acc c => do let a ← acc; let d ← hexValue c; pure (a * 16 + d)) (some 0)
    if v.isValidChar then some (Char.ofNat v) else none

/-- The character a one-letter escape stands for. -/
def simpleEscape : Char → Option Char
  | '\\' => some '\\'
  | '"' => some '"'
  | 'r' => some '\r'
  | 'n' => some '\n'
  | 't' => some '\t'
  | _ => none

/-- What reading a string literal after its opening quote found: the value, the characters
read (the closing quote included), whether the quote was found, and each bad escape with its
distance from the opening quote and its raw text. -/
structure Quoted where
  value : List Char
  width : Nat
  closed : Bool
  badEscapes : List (Nat × String)

/-- Reads a string literal's body; `at` is the distance of the list's head from the opening
quote. -/
def quoted (dist : Nat) : List Char → Quoted
  | [] => ⟨[], 0, false, []⟩
  | '\n' :: _ => ⟨[], 0, false, []⟩
  | '"' :: _ => ⟨[], 1, true, []⟩
  | ['\\'] => ⟨['\\'], 1, false, [(dist, "\\")]⟩
  | '\\' :: c :: tail =>
    match simpleEscape c with
    | some e =>
      let q := quoted (dist + 2) tail
      { q with value := e :: q.value, width := q.width + 2 }
    | none =>
      let digits := if c = 'x' then 2 else if c = 'u' then 4 else 0
      match (if digits > 0 then hexChar digits tail else none) with
      | some e =>
        let q := quoted (dist + 2 + digits) (tail.drop digits)
        { q with value := e :: q.value, width := q.width + 2 + digits }
      | none =>
        if c = '\n' then
          let q := quoted (dist + 1) (c :: tail)
          { q with value := '\\' :: q.value, width := q.width + 1,
                   badEscapes := (dist, "\\") :: q.badEscapes }
        else
          let q := quoted (dist + 2) tail
          { q with value := '\\' :: c :: q.value, width := q.width + 2,
                   badEscapes := (dist, String.ofList ['\\', c]) :: q.badEscapes }
  | c :: rest =>
    let q := quoted (dist + 1) rest
    { q with value := c :: q.value, width := q.width + 1 }
termination_by cs => cs.length
decreasing_by all_goals simp only [List.length_cons, List.length_drop]; omega

/-- A block comment's text after its opening: up to and including the closing `*/`, and
whether that was found. -/
def blockBody : List Char → List Char × Bool
  | '*' :: '/' :: _ => (['*', '/'], true)
  | c :: rest => let (b, k) := blockBody rest; (c :: b, k)
  | [] => ([], false)

/-- One step of the scanner: a token of the given kind (none for a skipped character), its
content, its width of at least one character, and the problems found at distances from its
start. -/
structure Lexeme where
  kind : Option TokenKind
  content : String
  width : Nat
  width_pos : 0 < width
  problems : List (Nat × Problem)

/-- The token at the head of a non-empty list of characters. -/
def lexeme (c : Char) (rest : List Char) : Lexeme :=
  match c, rest with
  | '\n', _ => ⟨some .eol, "\n", 1, by omega, []⟩
  | '/', '/' :: body =>
    let text := body.takeWhile (· != '\n')
    ⟨some .comment, String.ofList ('/' :: '/' :: text), text.length + 2, by omega, []⟩
  | '/', '*' :: body =>
    let (text, closed) := blockBody body
    ⟨some .comment, String.ofList ('/' :: '*' :: text), text.length + 2, by omega,
      if closed then [] else [(0, .unclosedComment)]⟩
  | '"', body =>
    let q := quoted 1 body
    let problems := q.badEscapes.map fun (d, raw) => (d, Problem.invalidEscape raw)
    ⟨some .stringLiteral, String.ofList q.value, q.width + 1, by omega,
      if q.closed then problems else problems ++ [(0, .unclosedString)]⟩
  | '[', '[' :: _ => ⟨some .symbol, "[[", 2, by omega, []⟩
  | ']', ']' :: _ => ⟨some .symbol, "]]", 2, by omega, []⟩
  | c, rest =>
    if isSymbolChar c then ⟨some .symbol, String.ofList [c], 1, by omega, []⟩
    else if Text.isWordChar c then
      let word := rest.takeWhile Text.isWordChar
      ⟨some .word, String.ofList (c :: word), word.length + 1, by omega, []⟩
    else ⟨none, "", 1, by omega, []⟩

/-- Scans the characters from position `pos` on, the next token starting a line when `head`
holds. -/
def scanFrom (line : Nat) (pos : Nat) (head : Bool) (tokens : Array Token)
    (issues : Array Issue) (cs : List Char) : Array Token × Array Issue :=
  match cs with
  | [] => (tokens.push ⟨.eof, "", Span.emptyAt pos, head⟩, issues)
  | c :: rest =>
    let lx := lexeme c rest
    let issues := lx.problems.foldl
      (fun acc (off, p) => acc.push ⟨line, pos + off, .error, p⟩) issues
    match lx.kind with
    | some k =>
      scanFrom line (pos + lx.width) (k == .eol)
        (tokens.push ⟨k, lx.content, ⟨pos, pos + lx.width⟩, head⟩) issues
        ((c :: rest).drop lx.width)
    | none => scanFrom line (pos + lx.width) head tokens issues ((c :: rest).drop lx.width)
termination_by cs.length
decreasing_by
  all_goals
    have := (lexeme c rest).width_pos
    simp only [List.length_drop, List.length_cons]
    omega

/-- The tokens of a text and the issues found, raised on line `line`. The last token is the
end of the text. -/
def scan (line : Nat) (text : String) : Array Token × Array Issue :=
  scanFrom line 0 true #[] #[] text.toList

end Token

end Jianpu
