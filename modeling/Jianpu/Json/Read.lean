import Jianpu.Json
import Jianpu.Decimal.Read
import Jianpu.Decimal.Binary
/-!
# Reading JSON text

`Json.parse` reads the text of one JSON value into a `Json`: blanks around the tokens, `null`,
`true`, `false`, numbers, strings with their escapes, lists and records, a record's fields in
the order written.

A number written without a fraction or an exponent is an integer, except `-0`, which is the
double negative zero; every other number is the double nearest to it, so a negative zero
written `-0.0` keeps its sign. A string's `\uXXXX` escapes of a surrogate pair make one
character, and a surrogate without its partner is refused.

* `skipBlanks`, `readString`, `readNumber` — one token each, with the text after it.
* `readValue`, `readItems`, `readFields` — a value, the rest of a list, the rest of a record;
  the first bound limits how deep values nest, the second how many items a list or record has.
* `Json.parse` — the value of a whole text, or why it is not JSON.
* `Json.field?`, `Json.asFloat?` — looking into a value read: a record's field (the last of
  equal keys) and a number as a double.
-/

namespace Jianpu.Json

def skipBlanks : List Char → List Char
  | c :: rest =>
    if c == ' ' || c == '\t' || c == '\n' || c == '\r' then skipBlanks rest else c :: rest
  | [] => []

def hexDigit (c : Char) : Option Nat :=
  if '0' ≤ c && c ≤ '9' then some (c.toNat - 48)
  else if 'a' ≤ c && c ≤ 'f' then some (c.toNat - 87)
  else if 'A' ≤ c && c ≤ 'F' then some (c.toNat - 55)
  else none

def hex4Value (a b c d : Char) : Option Nat :=
  [a, b, c, d].foldlM (fun acc x => (hexDigit x).map (acc * 16 + ·)) 0

/-- The character a one-letter escape stands for. -/
def simpleEscape : Char → Option Char
  | '"' => some '"'
  | '\\' => some '\\'
  | '/' => some '/'
  | 'b' => some '\x08'
  | 'f' => some '\x0c'
  | 'n' => some '\n'
  | 'r' => some '\r'
  | 't' => some '\t'
  | _ => none

def isHighSurrogate (n : Nat) : Bool := 0xD800 ≤ n && n < 0xDC00

def isLowSurrogate (n : Nat) : Bool := 0xDC00 ≤ n && n < 0xE000

/-- Reads the rest of a string after its opening quote, appending to `acc`: the text and what
follows the closing quote. Control characters must be escaped. -/
def readString (acc : String) : List Char → Except String (String × List Char)
  | [] => .error "EOF while parsing a string"
  | '"' :: rest => .ok (acc, rest)
  | '\\' :: 'u' :: a :: b :: c :: d :: rest =>
    match hex4Value a b c d with
    | none => .error "invalid escape"
    | some hi =>
      if isHighSurrogate hi then
        match rest with
        | '\\' :: 'u' :: e :: f :: g :: h :: more =>
          match hex4Value e f g h with
          | some lo =>
            if isLowSurrogate lo then
              let code := 0x10000 + (hi - 0xD800) * 0x400 + (lo - 0xDC00)
              readString (acc.push (Char.ofNat code)) more
            else .error "lone leading surrogate in hex escape"
          | none => .error "invalid escape"
        | _ => .error "lone leading surrogate in hex escape"
      else if isLowSurrogate hi then .error "unexpected end of hex escape"
      else readString (acc.push (Char.ofNat hi)) rest
  | '\\' :: c :: rest =>
    match simpleEscape c with
    | some e => readString (acc.push e) rest
    | none => .error "invalid escape"
  | c :: rest =>
    if c.toNat < 0x20 then .error "control character found while parsing a string"
    else readString (acc.push c) rest

def isNumberChar (c : Char) : Bool :=
  c.isDigit || c == '-' || c == '+' || c == '.' || c == 'e' || c == 'E'

def digitsThen (cs : List Char) : Option (List Char) :=
  if (cs.takeWhile Char.isDigit).isEmpty then none else some (cs.dropWhile Char.isDigit)

/-- Whether characters are a JSON number: an optional minus, `0` or digits not led by `0`, an
optional fraction of at least one digit, and an optional exponent of at least one digit with
an optional sign. -/
def isNumberText (cs : List Char) : Bool :=
  let body := match cs with
    | '-' :: r => r
    | r => r
  let afterInt : Option (List Char) := match body with
    | '0' :: r => some r
    | r => if r.head?.any (· != '0') then digitsThen r else none
  let afterFrac := afterInt.bind fun r => match r with
    | '.' :: f => digitsThen f
    | f => some f
  let afterExp := afterFrac.bind fun r => match r with
    | 'e' :: x | 'E' :: x =>
      match x with
      | '+' :: d | '-' :: d => digitsThen d
      | d => digitsThen d
    | x => some x
  afterExp == some []

/-- The value of a number's text: an integer when written without a fraction or an exponent
(`-0` being negative zero), otherwise the nearest double. -/
def numberValue (cs : List Char) : Option Json :=
  if !isNumberText cs then none
  else if cs.all fun c => c.isDigit || c == '-' then
    if cs == ['-', '0'] then some (.num (-0.0))
    else (String.toInt? (String.ofList cs)).map .int
  else (Decimal.readFloat (String.ofList cs)).map .num

/-- Reads a number at the start of the characters, and the text after it. -/
def readNumber (cs : List Char) : Except String (Json × List Char) :=
  match numberValue (cs.takeWhile isNumberChar) with
  | some v => .ok (v, cs.dropWhile isNumberChar)
  | none => .error "expected value"

mutual
/-- Reads one value after blanks, with the text after it; `depth` bounds the nesting. -/
def readValue (depth : Nat) (cs : List Char) : Except String (Json × List Char) :=
  match depth with
  | 0 => .error "recursion limit exceeded"
  | d + 1 =>
    match skipBlanks cs with
    | 'n' :: 'u' :: 'l' :: 'l' :: rest => .ok (.null, rest)
    | 't' :: 'r' :: 'u' :: 'e' :: rest => .ok (.bool true, rest)
    | 'f' :: 'a' :: 'l' :: 's' :: 'e' :: rest => .ok (.bool false, rest)
    | '"' :: rest => (readString "" rest).map fun (s, r) => (.str s, r)
    | '[' :: rest =>
      match skipBlanks rest with
      | ']' :: more => .ok (.arr [], more)
      | _ => readItems d rest.length [] rest
    | '{' :: rest =>
      match skipBlanks rest with
      | '}' :: more => .ok (.obj [], more)
      | _ => readFields d rest.length [] rest
    | other => readNumber other
termination_by (depth, 0)

/-- Reads the items of a list after its first one starts, up to the closing bracket; the items
read so far are in `acc`, last first. -/
def readItems (d count : Nat) (acc : List Json) (cs : List Char) :
    Except String (Json × List Char) :=
  match count with
  | 0 => .error "expected `,` or `]`"
  | n + 1 =>
    match readValue d cs with
    | .error e => .error e
    | .ok (v, rest) =>
      match skipBlanks rest with
      | ',' :: more => readItems d n (v :: acc) more
      | ']' :: more => .ok (.arr (v :: acc).reverse, more)
      | _ => .error "expected `,` or `]`"
termination_by (d, count + 1)

/-- Reads the fields of a record after its first one starts, up to the closing brace; the
fields read so far are in `acc`, last first. -/
def readFields (d count : Nat) (acc : List (String × Json)) (cs : List Char) :
    Except String (Json × List Char) :=
  match count with
  | 0 => .error "expected `,` or `\x7d`"
  | n + 1 =>
    match skipBlanks cs with
    | '"' :: rest =>
      match readString "" rest with
      | .error e => .error e
      | .ok (key, rest) =>
        match skipBlanks rest with
        | ':' :: rest =>
          match readValue d rest with
          | .error e => .error e
          | .ok (v, rest) =>
            match skipBlanks rest with
            | ',' :: more => readFields d n ((key, v) :: acc) more
            | '}' :: more => .ok (.obj ((key, v) :: acc).reverse, more)
            | _ => .error "expected `,` or `\x7d`"
        | _ => .error "expected `:`"
    | _ => .error "key must be a string"
termination_by (d, count + 1)
end

/-- The value of a whole JSON text; only blanks may follow it. -/
def parse (text : String) : Except String Json :=
  let cs := text.toList
  match readValue (cs.length + 1) cs with
  | .error e => .error e
  | .ok (v, rest) => if (skipBlanks rest).isEmpty then .ok v else .error "trailing characters"

/-- A record's field; of equal keys the last counts. -/
def field? (v : Json) (key : String) : Option Json :=
  match v with
  | .obj fields => (fields.reverse.find? (·.1 == key)).map (·.2)
  | _ => none

/-- A number as a double: a double itself, or an integer rounded to the nearest double. -/
def asFloat? : Json → Option Float
  | .num x => some x
  | .int n => some (Decimal.intToFloat n)
  | _ => none

theorem skipBlanks_space (cs : List Char) : skipBlanks (' ' :: cs) = skipBlanks cs := by
  simp [skipBlanks]

end Jianpu.Json
