import Jianpu.Decimal.Integer
import Jianpu.Decimal.Binary
/-!
# Reading decimal numbers as doubles

The grammar of a number: an optional sign, then either one of the words `inf`, `infinity`
and `nan` in any case, or digits with an optional point and an optional exponent `e` or
`E` with its own sign. At least one digit stands before or after the point, and an exponent
has at least one digit. The value is the double nearest to the decimal.

* `Scientific` — a decimal `digits · 10^exp` with its sign.
* `Scientific.ofChars` — the grammar above.
* `Scientific.toFloat` — the nearest double.
* `readFloat` — both together.
-/

namespace Jianpu.Decimal

/-- A decimal number `(-1)^negative · digits · 10^exp`, or a special value. -/
inductive Scientific where
  | finite (negative : Bool) (digits : Nat) (exp : Int)
  | infinity (negative : Bool)
  | nan

namespace Scientific

def spanDigits (cs : List Char) : List Char × List Char :=
  (cs.takeWhile Char.isDigit, cs.dropWhile Char.isDigit)

def digitsOf (cs : List Char) : Nat :=
  (digitValue cs).getD 0

/-- The exponent part after `e` or `E`: a sign and at least one digit, and nothing after. -/
def exponentOf (cs : List Char) : Option Int :=
  let (negative, rest) : Bool × List Char :=
    match cs with
    | '+' :: r => (false, r)
    | '-' :: r => (true, r)
    | r => (false, r)
  let (ds, tail) := spanDigits rest
  if ds.isEmpty || !tail.isEmpty then none
  else
    let v := digitsOf ds
    some (if negative then -(v : Int) else v)

def lowerAscii (cs : List Char) : List Char :=
  cs.map Char.toLower

/-- The number an unsigned text stands for, if it follows the grammar. -/
def ofUnsigned (negative : Bool) (cs : List Char) : Option Scientific :=
  let word := lowerAscii cs
  if word = "inf".toList || word = "infinity".toList then some (infinity negative)
  else if word = "nan".toList then some nan
  else
    let (whole, rest) := spanDigits cs
    let (fraction, rest) : List Char × List Char :=
      match rest with
      | '.' :: r => spanDigits r
      | r => ([], r)
    if whole.isEmpty && fraction.isEmpty then none
    else
      let exp : Option Int :=
        match rest with
        | [] => some 0
        | c :: r => if c = 'e' || c = 'E' then exponentOf r else none
      exp.map fun e => finite negative (digitsOf (whole ++ fraction)) (e - fraction.length)

/-- The number a text stands for, if it follows the grammar. -/
def ofChars (cs : List Char) : Option Scientific :=
  match cs with
  | '+' :: r => ofUnsigned false r
  | '-' :: r => ofUnsigned true r
  | r => ofUnsigned false r

def digitCount (n : Nat) : Nat :=
  (toString n).length

/-- The double nearest to the number. Values beyond `10^309` are infinite and values below
`10^-325` are zero, which spares the exact arithmetic huge powers of ten. -/
def toFloat : Scientific → Float
  | nan => 0.0 / 0.0
  | infinity negative => if negative then -(1.0 / 0.0) else 1.0 / 0.0
  | finite negative digits exp =>
    let magnitude : Float :=
      if digits = 0 then 0.0
      else
        let top := exp + digitCount digits
        if top > 310 then 1.0 / 0.0
        else if top < -325 then 0.0
        else if 0 ≤ exp then roundRatio (digits * Nat.pow 10 exp.toNat) 1
        else roundRatio digits (Nat.pow 10 (-exp).toNat)
    if negative then -magnitude else magnitude

end Scientific

def readFloat (s : String) : Option Float :=
  (Scientific.ofChars s.toList).map Scientific.toFloat

end Jianpu.Decimal
