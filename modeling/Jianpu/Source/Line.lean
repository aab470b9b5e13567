import Jianpu.Json
/-!
# Logical lines

A score is read line by line. Carriage returns, alone or before a line feed, end a line as a
line feed does. A line that ends in a single backslash continues on the next one: the
backslash is dropped and the two are read as one logical line. Two backslashes at the end
are text and continue nothing.

* `Segment` — the piece of a logical line that one physical line gave: its line number, its
  first character within the logical line and its length in characters.
* `LogicalLine` — the text of a logical line, the number of its first physical line and its
  segments.
* `LogicalLine.split` — a text cut into logical lines; there is always at least one.
* `LogicalLine.offsetOf` — the character of the logical line under a physical row and column.
-/

namespace Jianpu

/-- The part of a logical line that came from one physical line. -/
structure Segment where
  line : Nat
  offset : Nat
  len : Nat
  deriving Inhabited, Repr

/-- A line as the compiler reads it, joined from one or more physical lines. -/
structure LogicalLine where
  line : Nat
  text : String
  segments : List Segment
  deriving Inhabited, Repr

namespace LogicalLine

/-- A carriage return, alone or before a line feed, becomes one line feed. -/
def normalizeBreaks : List Char → List Char
  | '\r' :: '\n' :: rest => '\n' :: normalizeBreaks rest
  | '\r' :: rest => '\n' :: normalizeBreaks rest
  | c :: rest => c :: normalizeBreaks rest
  | [] => []

/-- The physical lines of a text: the pieces between line feeds. -/
def physicalLines (cs : List Char) : List (List Char) :=
  cs.foldr (fun c acc =>
    if c = '\n' then [] :: acc
    else match acc with
      | l :: ls => (c :: l) :: ls
      | [] => [[c]]) [[]]

def continues (cs : List Char) : Bool :=
  match cs.reverse with
  | '\\' :: '\\' :: _ => false
  | '\\' :: _ => true
  | _ => false

/-- Joins physical lines, numbered from `n`, onto the pending logical line. -/
def join (done : Array LogicalLine) (pending : Option LogicalLine) (n : Nat) :
    List (List Char) → Array LogicalLine
  | [] => match pending with
    | some l => done.push l
    | none => done
  | raw :: rest =>
    let joined := continues raw
    let body := if joined then raw.dropLast else raw
    let line := pending.getD ⟨n, "", []⟩
    let line := { line with
      segments := line.segments ++ [⟨n, line.text.length, body.length⟩]
      text := line.text ++ String.ofList body }
    if joined then join done (some line) (n + 1) rest
    else join (done.push line) none (n + 1) rest

def split (text : String) : List LogicalLine :=
  (join #[] none 0 (physicalLines (normalizeBreaks text.toList))).toList

/-- The character of the logical line under column `col` of physical row `row`, the column
held to the end of that row's segment; `none` when the row is not part of the line. -/
def offsetOf (l : LogicalLine) (row col : Nat) : Option Nat :=
  (l.segments.find? (·.line == row)).map fun s => s.offset + min col s.len

def toJson (l : LogicalLine) : Json :=
  .obj [("lineNumber", .nat l.line), ("text", .str l.text),
    ("segments", .list (fun s => .obj [("lineNumber", .nat s.line),
      ("offset", .nat s.offset), ("len", .nat s.len)]) l.segments)]

end LogicalLine

end Jianpu
