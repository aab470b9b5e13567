import Jianpu.Decimal.Text
/-!
# Data values and their text

The compiler's results are data: nulls, booleans, integers, doubles, strings, lists and
records. `Json` is that value and `Json.render` writes it as JSON text.

* `Json` — a data value; a record keeps its fields in the order given.
* `Json.render` — the text: strings escaped, doubles with their shortest digits
  (`Decimal.numberText`) and `null` for infinities and NaN.
* `escapeInto` — a string's JSON text.

Rendering appends to one buffer from left to right, so a value of any size is written in
time proportional to its text.
-/

namespace Jianpu

/-- A data value. -/
inductive Json where
  | null
  | bool (b : Bool)
  | int (n : Int)
  | num (x : Float)
  | str (s : String)
  | arr (items : List Json)
  | obj (fields : List (String × Json))
  deriving Inhabited

namespace Json

/-- Four hexadecimal digits of a code unit below `0x10000`. -/
def hex4 (n : Nat) : String :=
  let digit (k : Nat) : Char :=
    let d := (n / Nat.pow 16 k) % 16
    if d < 10 then Char.ofNat (48 + d) else Char.ofNat (87 + d)
  String.ofList [digit 3, digit 2, digit 1, digit 0]

/-- Appends the escaped form of one character: quote and backslash get a backslash, the
control characters below `0x20` their short escape or `\u00XX`, and all others stand as
they are. -/
def escapeChar (acc : String) (c : Char) : String :=
  match c with
  | '"' => acc ++ "\\\""
  | '\\' => acc ++ "\\\\"
  | '\n' => acc ++ "\\n"
  | '\r' => acc ++ "\\r"
  | '\t' => acc ++ "\\t"
  | '\x08' => acc ++ "\\b"
  | '\x0c' => acc ++ "\\f"
  | c => if c.toNat < 0x20 then acc ++ "\\u" ++ hex4 c.toNat else acc.push c

def escapeInto (acc : String) (s : String) : String :=
  (s.toList.foldl escapeChar (acc.push '"')).push '"'

mutual
/-- Appends the text of a value. -/
def renderInto (acc : String) : Json → String
  | .null => acc ++ "null"
  | .bool b => acc ++ (if b then "true" else "false")
  | .int n => acc ++ toString n
  | .num x => acc ++ (Decimal.numberText x).getD "null"
  | .str s => escapeInto acc s
  | .arr items => (renderItems (acc.push '[') true items).push ']'
  | .obj fields => (renderFields (acc.push '{') true fields).push '}'

def renderItems (acc : String) (first : Bool) : List Json → String
  | [] => acc
  | v :: rest =>
    let acc := if first then acc else acc.push ','
    renderItems (renderInto acc v) false rest

def renderFields (acc : String) (first : Bool) : List (String × Json) → String
  | [] => acc
  | (k, v) :: rest =>
    let acc := if first then acc else acc.push ','
    renderFields (renderInto ((escapeInto acc k).push ':') v) false rest
end

def render (v : Json) : String :=
  renderInto "" v

def opt {α : Type} (f : α → Json) : Option α → Json
  | some a => f a
  | none => null

def list {α : Type} (f : α → Json) (xs : List α) : Json :=
  arr (xs.map f)

def nat (n : Nat) : Json := int n

theorem render_null : render null = "null" := by decide

end Json

end Jianpu
