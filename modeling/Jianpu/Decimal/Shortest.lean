import Jianpu.Decimal.Binary
/-!
# Shortest decimal digits of a double

Every finite double is the nearest double to a whole interval of reals: the points closer to
it than to either neighbour, the two ends included when the mantissa is even (a tie reads to
the even mantissa). The shortest decimal of the double is the decimal with the fewest digits
in that interval; of several with that many digits, the one nearest to the double. When two
are equally near, a `Tie` rule decides: data formats take the one with the even last digit,
running text the larger one.

* `Tie` — which of two equally near decimals is written.
* `Interval` — the interval of a positive double, over a common denominator.
* `Interval.hits` — the multiples of `10^e` in it.
* `shortestDigits` — digits `k` and exponent `e` with `k · 10^e` the shortest decimal.

The search tries the grids `10^e` from a power of ten above the interval downwards. The first
grid with a point in the interval gives the fewest digits, since every point of a coarser grid
is also a point of each finer one; of its points the one nearest to the double is taken.
-/

namespace Jianpu.Decimal

/-- Which of two decimals equally near to a double is written. -/
inductive Tie where
  /-- The one whose last digit is even. -/
  | even
  /-- The larger one. -/
  | up
  deriving Inhabited, BEq, DecidableEq

/-- The quotient `num / den` rounded to the nearest integer, a tie settled by `tie`. -/
def Tie.round (tie : Tie) (num den : Nat) : Nat :=
  match tie with
  | .even => roundHalfEven num den
  | .up => (2 * num + den) / (2 * den)

/-- The reals that read back as a positive double, as `lo / den ≤ x ≤ hi / den` (strict
inequalities when `closed` is false), together with the double itself as `mid / den`. -/
structure Interval where
  lo : Nat
  mid : Nat
  hi : Nat
  den : Nat
  closed : Bool

namespace Interval

/-- The interval of the positive double `mant · 2^exp`. Everything is scaled by four so that
the quarter steps of the tight lower end stay whole. -/
def ofBinary (b : Binary) : Interval :=
  let lower := if b.lowerTight then 4 * b.mant - 1 else 4 * b.mant - 2
  let closed := b.mant % 2 = 0
  let shift := b.exp - 2
  if 0 ≤ shift then
    let s := Nat.pow 2 shift.toNat
    ⟨lower * s, 4 * b.mant * s, (4 * b.mant + 2) * s, 1, closed⟩
  else
    ⟨lower, 4 * b.mant, 4 * b.mant + 2, Nat.pow 2 (-shift).toNat, closed⟩

def ceilDiv (a b : Nat) : Nat := (a + b - 1) / b

/-- The interval and the double rescaled so that the points of the grid `10^e` are the
multiples of the last component. -/
def scaled (iv : Interval) (e : Int) : Nat × Nat × Nat × Nat :=
  if 0 ≤ e then (iv.lo, iv.mid, iv.hi, Nat.pow 10 e.toNat * iv.den)
  else
    let t := Nat.pow 10 (-e).toNat
    (iv.lo * t, iv.mid * t, iv.hi * t, iv.den)

/-- The multiple `k · 10^e` of the interval nearest to the double, a tie settled by `tie`,
when the interval holds one. -/
def hits (iv : Interval) (tie : Tie) (e : Int) : Option Nat :=
  let (lo, mid, hi, step) := iv.scaled e
  let kmin := if iv.closed then ceilDiv lo step else lo / step + 1
  let kmax := if iv.closed then hi / step else ceilDiv hi step - 1
  if kmin ≤ kmax then
    let k := tie.round mid step
    some (max kmin (min kmax k))
  else none

end Interval

/-- Tries the grids `10^e`, `10^(e-1)`, … for at most `fuel` steps. -/
def searchGrid (iv : Interval) (tie : Tie) : Nat → Int → Option (Nat × Int)
  | 0, _ => none
  | fuel + 1, e =>
    match iv.hits tie e with
    | some k => some (k, e)
    | none => searchGrid iv tie fuel (e - 1)

/-- A power of ten at or above the top of the interval: `log10 2` is a little below
`30103 / 100000`, and two more steps cover the error of the binary logarithms. -/
def gridStart (iv : Interval) : Int :=
  let lg : Int := (Nat.log2 iv.hi : Int) + 1 - (Nat.log2 iv.den : Int)
  lg * 30103 / 100000 + 2

/-- The shortest decimal `k · 10^e` that reads back as the positive double `b`, a tie settled
by `tie`. Seventeen digits always suffice, so the search ends well within its bound of steps. -/
def shortestDigits (tie : Tie) (b : Binary) : Nat × Int :=
  let iv := Interval.ofBinary b
  match searchGrid iv tie 64 (gridStart iv) with
  | some r => r
  | none => (b.mant, b.exp)

end Jianpu.Decimal
