/-!
# Doubles as binary fractions

A finite double is `m · 2^q` with a 53-bit mantissa `m`. This module reads that form off the
bits of a `Float` and builds a `Float` back from an exact ratio, rounding to the nearest double
and a tie to the even mantissa, as the binary64 format of IEEE 754 prescribes.

* `Binary` — sign, mantissa and exponent of a finite double.
* `Binary.ofFloat` — the form of a finite double, `none` for infinities and NaN.
* `roundRatio` — the double nearest to `n / d`.
* `natToFloat`, `intToFloat` — the double nearest to an integer.

The rounding finds the exponent `e` at which `n / (d · 2^e)` has 53 binary digits, or the
least exponent of the format when the value is too small for that, and rounds the quotient
once, so the result is the nearest double.
-/

namespace Jianpu.Decimal

/-- A finite double `(-1)^negative · mant · 2^exp`. `lowerTight` marks a power of two above the
least normal one, whose neighbour below lies at half the distance of the one above. -/
structure Binary where
  negative : Bool
  mant : Nat
  exp : Int
  lowerTight : Bool

namespace Binary

/-- Reads sign, mantissa and exponent from the 64 bits of a finite double. -/
def ofFloat (x : Float) : Option Binary :=
  let bits := x.toBits.toNat
  let negative := bits ≥ Nat.pow 2 63
  let field : Nat := (bits / Nat.pow 2 52) % Nat.pow 2 11
  let frac : Nat := bits % Nat.pow 2 52
  if field = 2047 then none
  else if field = 0 then some ⟨negative, frac, -1074, false⟩
  else some ⟨negative, frac + Nat.pow 2 52, (field : Int) - 1075, frac = 0 ∧ field > 1⟩

end Binary

/-- The double nearest to a natural number. Below `2^64` it is the machine conversion of the
64-bit word, which rounds to the nearest double as `Float.ofNat` does and takes a fraction of
its time. -/
def natToFloat (n : Nat) : Float :=
  if n < Nat.pow 2 64 then n.toUInt64.toFloat else Float.ofNat n

def intToFloat : Int → Float
  | .ofNat n => natToFloat n
  | .negSucc n => -(natToFloat (n + 1))

def scaleDown (n d : Nat) (e : Int) : Nat × Nat :=
  if 0 ≤ e then (n, d * Nat.pow 2 e.toNat) else (n * Nat.pow 2 (-e).toNat, d)

/-- The quotient `num / den` rounded to the nearest integer, a tie to the even one. -/
def roundHalfEven (num den : Nat) : Nat :=
  let q := num / den
  let r := num % den
  if 2 * r > den then q + 1
  else if 2 * r < den then q
  else if q % 2 = 0 then q else q + 1

/-- The non-negative double nearest to `n / d` (for `d > 0`), a tie to the even mantissa. -/
def roundRatio (n d : Nat) : Float :=
  if n = 0 then 0.0
  else
    let guess : Int := (Nat.log2 n : Int) - (Nat.log2 d : Int) - 52
    let below (e : Int) : Bool :=
      let (a, b) := scaleDown n d e
      a / b < Nat.pow 2 52
    let above (e : Int) : Bool :=
      let (a, b) := scaleDown n d e
      a / b ≥ Nat.pow 2 53
    let e := if below guess then guess - 1 else if above guess then guess + 1 else guess
    let e := max e (-1074)
    let (a, b) := scaleDown n d e
    let m := roundHalfEven a b
    let (m, e) := if m = Nat.pow 2 53 then (Nat.pow 2 52, e + 1) else (m, e)
    if e > 971 then Float.ofBits 0x7FF0000000000000
    else if m < Nat.pow 2 52 then Float.ofBits m.toUInt64
    else Float.ofBits (((e + 1075).toNat * Nat.pow 2 52 + (m - Nat.pow 2 52)).toUInt64)

end Jianpu.Decimal
