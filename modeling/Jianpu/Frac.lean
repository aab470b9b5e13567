import Jianpu.Text.Blank
import Jianpu.Decimal.Integer
import Jianpu.Decimal.Binary
/-!
# Fractions of musical time

Positions and durations are exact fractions of a quarter note. A `Frac` is a reduced ratio
of magnitudes with its sign kept apart, an infinity of either sign, or the indeterminate
value `0/0`. Parts are 64-bit words: a result whose reduced parts do not fit becomes
indeterminate rather than wrong.

* `Frac.make x y` — `x/y` reduced; `n/0` is infinite with the sign of `n`, `0/0`
  indeterminate.
* `Frac.numer`, `Frac.denom` — the parts as signed 64-bit words (`0` and the sign for the
  sentinels); a magnitude of `2^63` reads as `-2^63`, as two's complement has it.
* `+`, `-`, `*`, `/` — exact on finite values through 128-bit intermediates, then reduced;
  with an infinite or indeterminate operand, extended arithmetic (`∞ - ∞` and `0 · ∞` are
  indeterminate).
* `Frac.compare` — the value order, indeterminate first and equal to itself.
* `Frac.parse` — `"x"` or `"x/y"` with 64-bit integer parts and blanks around them.
* `Frac.toString` — `"numer/denom"`.

Finite arithmetic works on the parts as `numer` and `denom` read them, so the reading of a
magnitude `2^63` as a negative word takes part in it, and `ofWide` refuses a numerator of
`-2^63`, whose magnitude has no positive word.
-/

namespace Jianpu

/-- An exact fraction, an infinity, or the indeterminate value. -/
inductive Frac where
  /-- `± num / den`, reduced, with `den > 0` and no sign on zero. -/
  | ratio (negative : Bool) (num den : Nat)
  /-- `+∞` or `-∞`. -/
  | infinite (negative : Bool)
  /-- `0/0`. -/
  | indeterminate
  deriving Inhabited, DecidableEq, Repr

namespace Frac

def word (x : Int) : Int :=
  (x + Int.pow 2 63) % Int.pow 2 64 - Int.pow 2 63

def fitsWord (x : Int) : Bool :=
  Decimal.i64Min ≤ x && x ≤ Decimal.i64Max

def fitsWide (x : Int) : Bool :=
  -(Int.pow 2 127) ≤ x && x < Int.pow 2 127

/-- `x/y` reduced. A zero denominator gives an infinity with the sign of `x`, or the
indeterminate value when `x` is zero too. -/
def make (x y : Int) : Frac :=
  if y = 0 then
    if x = 0 then indeterminate else infinite (x < 0)
  else
    let g := Nat.gcd x.natAbs y.natAbs
    ratio ((decide (x < 0) != decide (y < 0)) && x != 0) (x.natAbs / g) (y.natAbs / g)

def ofInt (x : Int) : Frac := make x 1

def zero : Frac := ratio false 0 1

def one : Frac := ratio false 1 1

instance : OfNat Frac n := ⟨ofInt n⟩

/-- The signed numerator as a 64-bit word: `0` for the indeterminate value and `±1` for
the infinities. -/
def numer : Frac → Int
  | ratio negative num _ => word (if negative then -(num : Int) else num)
  | infinite negative => if negative then -1 else 1
  | indeterminate => 0

def denom : Frac → Int
  | ratio _ _ den => word den
  | _ => 0

def isIndeterminate : Frac → Bool
  | indeterminate => true
  | _ => false

def isInfinite : Frac → Bool
  | infinite _ => true
  | _ => false

def isFinite : Frac → Bool
  | ratio .. => true
  | _ => false

def isZero (f : Frac) : Bool :=
  f.isFinite && f.numer == 0

def isNegative (f : Frac) : Bool :=
  f.numer < 0

/-- The fraction from 128-bit parts, reduced; indeterminate when a part was lost to
overflow or does not fit a 64-bit word after reduction. -/
def ofWide : Option Int → Option Int → Frac
  | some n, some d =>
    if d = 0 then make n.sign 0
    else
      let g : Int := max (Nat.gcd n.natAbs d.natAbs) 1
      let (n, d) := if d < 0 then (-n / g, -d / g) else (n / g, d / g)
      if fitsWord n && fitsWord d && n != Decimal.i64Min then make n d else indeterminate
  | _, _ => indeterminate

def wide (x : Int) : Option Int :=
  if fitsWide x then some x else none

/-- Sum in extended arithmetic: opposite infinities give the indeterminate value. -/
def add (a b : Frac) : Frac :=
  match a, b with
  | ratio .., ratio .. =>
    let n := do
      let x ← wide (a.numer * b.denom)
      let y ← wide (b.numer * a.denom)
      wide (x + y)
    ofWide n (wide (a.denom * b.denom))
  | indeterminate, _ | _, indeterminate => indeterminate
  | infinite s, infinite t => if s == t then infinite s else indeterminate
  | infinite s, ratio .. => infinite s
  | ratio .., infinite t => infinite t

/-- Difference in extended arithmetic: equal infinities give the indeterminate value. -/
def sub (a b : Frac) : Frac :=
  match a, b with
  | ratio .., ratio .. =>
    let n := do
      let x ← wide (a.numer * b.denom)
      let y ← wide (b.numer * a.denom)
      wide (x - y)
    ofWide n (wide (a.denom * b.denom))
  | indeterminate, _ | _, indeterminate => indeterminate
  | infinite s, infinite t => if s == t then indeterminate else infinite s
  | infinite s, ratio .. => infinite s
  | ratio .., infinite t => infinite (!t)

/-- Product in extended arithmetic: an infinity times zero is indeterminate. -/
def mul (a b : Frac) : Frac :=
  match a, b with
  | ratio .., ratio .. => ofWide (wide (a.numer * b.numer)) (wide (a.denom * b.denom))
  | indeterminate, _ | _, indeterminate => indeterminate
  | infinite s, infinite t => infinite (s != t)
  | infinite s, ratio t num _ => if num = 0 then indeterminate else infinite (s != t)
  | ratio t num _, infinite s => if num = 0 then indeterminate else infinite (s != t)

/-- Quotient. Division by zero gives the sentinel of the dividend's sign, as `make` does;
otherwise extended arithmetic, where a finite value over an infinity is zero. -/
def div (a b : Frac) : Frac :=
  if b.isZero then make a.numer.sign 0
  else
    match a, b with
    | ratio .., ratio .. => ofWide (wide (a.numer * b.denom)) (wide (a.denom * b.numer))
    | indeterminate, _ | _, indeterminate => indeterminate
    | infinite _, infinite _ => indeterminate
    | infinite s, ratio t _ _ => infinite (s != t)
    | ratio .., infinite _ => zero

/-- The opposite value; zero keeps no sign. -/
def neg : Frac → Frac
  | ratio negative num den => ratio (!negative && num != 0) num den
  | infinite negative => infinite (!negative)
  | indeterminate => indeterminate

instance : Add Frac := ⟨add⟩
instance : Sub Frac := ⟨sub⟩
instance : Mul Frac := ⟨mul⟩
instance : Div Frac := ⟨div⟩
instance : Neg Frac := ⟨neg⟩

def abs (f : Frac) : Frac :=
  if f.isNegative then -f else f

/-- The largest integer not above the value, by the words of the parts; `0` for the
sentinels. -/
def floor (f : Frac) : Int :=
  if f.isFinite then f.numer / f.denom else 0

def toFloat (f : Frac) : Float :=
  match f with
  | indeterminate => 0.0 / 0.0
  | infinite negative => if negative then -(1.0 / 0.0) else 1.0 / 0.0
  | ratio .. => Decimal.intToFloat f.numer / Decimal.intToFloat f.denom

/-- The exact rational value of a finite fraction, as a signed numerator over the
magnitude of the denominator. -/
def signedNum (negative : Bool) (num : Nat) : Int :=
  if negative then -(num : Int) else num

/-- The total order: the indeterminate value first and equal to itself, then the values
from `-∞` to `+∞`, the two infinities of one sign being equal. -/
def compare (a b : Frac) : Ordering :=
  match a, b with
  | indeterminate, indeterminate => .eq
  | indeterminate, _ => .lt
  | _, indeterminate => .gt
  | infinite s, infinite t => if s == t then .eq else if s then .lt else .gt
  | infinite s, _ => if s then .lt else .gt
  | _, infinite t => if t then .gt else .lt
  | ratio s n d, ratio t m e => Ord.compare (signedNum s n * e) (signedNum t m * d)

instance : Ord Frac := ⟨compare⟩

instance : BEq Frac := ⟨fun a b => compare a b == .eq⟩

instance : LT Frac := ⟨fun a b => compare a b = .lt⟩

instance : LE Frac := ⟨fun a b => compare a b ≠ .gt⟩

instance (a b : Frac) : Decidable (a < b) := inferInstanceAs (Decidable (compare a b = .lt))

instance (a b : Frac) : Decidable (a ≤ b) := inferInstanceAs (Decidable (compare a b ≠ .gt))

def max (a b : Frac) : Frac := if compare a b == .lt then b else a

def min (a b : Frac) : Frac := if compare b a == .lt then b else a

protected def toString (f : Frac) : String :=
  s!"{f.numer}/{f.denom}"

instance : ToString Frac := ⟨Frac.toString⟩

/-- Reads `"x"` or `"x/y"`: blanks around the text and around each part, each part a 64-bit
integer. -/
def parse (text : String) : Option Frac :=
  let cs := Text.trimChars text.toList
  match cs.span (· != '/') with
  | (x, '/' :: y) => do
    let x ← Decimal.readI64 (String.ofList (Text.trimChars x))
    let y ← Decimal.readI64 (String.ofList (Text.trimChars y))
    pure (make x y)
  | _ => (Decimal.readI64 (String.ofList cs)).map ofInt

def sum (xs : List Frac) : Frac :=
  xs.foldl (· + ·) zero

theorem make_three_zero : make 3 0 = infinite false := by decide

theorem toString_half : (make 2 4).toString = "1/2" := by decide

end Frac

end Jianpu
