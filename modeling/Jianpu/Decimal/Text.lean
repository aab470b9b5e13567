import Jianpu.Decimal.Shortest
/-!
# Decimal text of doubles

Two ways to write a double with its shortest digits (`shortestDigits`):

* `numberText` — as a number of a data format: positional with a fraction part (`500.0`,
  `0.001`) when the point falls within sixteen places left of the digits and five right of
  them, with an exponent otherwise (`1e16`, `1.5e-7`); no text for infinities and NaN, which
  have no number form.
* `plainText` — as running text: always positional, without a fraction part for whole
  values (`100`, `-1.5`, `1000000000000000000000`), and `NaN`, `inf`, `-inf`.

Data formats settle a tie between two equally near shortest decimals to the even last digit,
running text to the larger decimal (`Tie`). Both write the digits `d₁ … dₙ` of `k` and place the point by `kk = n + e`, the position of
the point counted from the first digit.
-/

namespace Jianpu.Decimal

def zeros (n : Nat) : String :=
  String.ofList (List.replicate n '0')

/-- The shortest digits of a positive finite double and the place of its point. -/
def pointedDigits (tie : Tie) (b : Binary) : String × Int :=
  let (k, e) := shortestDigits tie b
  let ds := toString k
  (ds, (ds.length : Int) + e)

/-- Number-format text of a finite double's magnitude. -/
def numberMagnitude (b : Binary) : String :=
  if b.mant = 0 then "0.0"
  else
    let (ds, kk) := pointedDigits .even b
    let n : Int := ds.length
    let cs := ds.toList
    if n ≤ kk ∧ kk ≤ 16 then ds ++ zeros (kk - n).toNat ++ ".0"
    else if 0 < kk ∧ kk ≤ 16 then
      String.ofList (cs.take kk.toNat) ++ "." ++ String.ofList (cs.drop kk.toNat)
    else if -5 < kk ∧ kk ≤ 0 then "0." ++ zeros (-kk).toNat ++ ds
    else
      let mantissa :=
        if n = 1 then ds else String.ofList (cs.take 1) ++ "." ++ String.ofList (cs.drop 1)
      mantissa ++ "e" ++ toString (kk - 1)

def numberText (x : Float) : Option String :=
  (Binary.ofFloat x).map fun b =>
    (if b.negative then "-" else "") ++ numberMagnitude b

/-- Running-text form of a finite double's magnitude. -/
def plainMagnitude (b : Binary) : String :=
  if b.mant = 0 then "0"
  else
    let (ds, kk) := pointedDigits .up b
    let n : Int := ds.length
    let cs := ds.toList
    if kk ≤ 0 then "0." ++ zeros (-kk).toNat ++ ds
    else if n ≤ kk then ds ++ zeros (kk - n).toNat
    else String.ofList (cs.take kk.toNat) ++ "." ++ String.ofList (cs.drop kk.toNat)

def plainText (x : Float) : String :=
  match Binary.ofFloat x with
  | some b => (if b.negative then "-" else "") ++ plainMagnitude b
  | none => if x.isNaN then "NaN" else if x > 0 then "inf" else "-inf"

end Jianpu.Decimal
