/-!
# Reading integers

An integer is written as an optional sign followed by one or more ASCII digits, and is read
only when its value lies in the range of the quantity it stands for. A minus sign is only
accepted where the range holds negative numbers, and a sign alone is no number.

* `digitValue` — the value of a run of ASCII digits.
* `readIntIn` — the integer of a text, when it is well written and in range.
* `readI64`, `readI32`, `readU32`, `readU64` — the ranges that scores use.
-/

namespace Jianpu.Decimal

def digitValue (cs : List Char) : Option Nat :=
  cs.foldl (fun acc c => acc.bind fun n =>
    if c.isDigit then some (n * 10 + (c.toNat - '0'.toNat)) else none) (some 0)

/-- Reads an integer of the range `[lo, hi]`: a sign (a minus only when `lo < 0`), then
one or more ASCII digits, and nothing else. -/
def readIntIn (lo hi : Int) (s : String) : Option Int :=
  let (negative, digits) : Bool × List Char :=
    match s.toList with
    | '+' :: rest => (false, rest)
    | '-' :: rest => if lo < 0 then (true, rest) else (false, '-' :: rest)
    | rest => (false, rest)
  if digits.isEmpty then none
  else
    match digitValue digits with
    | none => none
    | some n =>
      let v : Int := if negative then -(n : Int) else n
      if lo ≤ v ∧ v ≤ hi then some v else none

def i64Min : Int := -9223372036854775808
def i64Max : Int := 9223372036854775807

def readI64 (s : String) : Option Int := readIntIn i64Min i64Max s

def readI32 (s : String) : Option Int := readIntIn (-2147483648) 2147483647 s

def readU32 (s : String) : Option Nat :=
  (readIntIn 0 4294967295 s).map Int.toNat

def readU64 (s : String) : Option Nat :=
  (readIntIn 0 18446744073709551615 s).map Int.toNat

theorem readI64_plus : readI64 "+12" = some 12 := by decide

theorem readU32_minus : readU32 "-0" = none := by decide

end Jianpu.Decimal
