import Mathlib
import Jianpu.Frac
/-!
# Fraction arithmetic is exact or indeterminate

Between two finite fractions, `+`, `-`, `*` and `/` work on the parts as `numer` and `denom`
read them, widened to 128 bits, and `ofWide` reduces the result and keeps it only when both of
its parts fit a word. This file says what that gives.

* `Frac.value?`   the rational a finite fraction stands for; a sentinel stands for none.
* `Frac.InWords`  both parts of a rational in lowest terms lie in `(i64::MIN, i64::MAX]`.
* `Frac.Exact`    the result of an operation whose exact value is `q`: `q` itself when `q` fits,
  the indeterminate value when it does not.
* `Frac.Built`    the fractions built from 64-bit parts by `make` and the four operations.
* `Frac.Readable` the parts a fraction reads back as words are its own: its signed numerator
  fits a word and its denominator is below `2^63`.
* `Frac.signum`   the sign of what a fraction stands for, an infinity's included.

`exact_ofWide` is the heart of it: any quotient of two integers, the denominator not zero,
comes out of `ofWide` exact or indeterminate. On readable operands no 128-bit intermediate
overflows, so every operation is `ofWide` of the exact numerator and denominator.

A built fraction may have a part of magnitude `2^63`, which `numer` and `denom` read back as
`-2^63`: `make 1 i64Min` stands for `-1/2^63` but reads as `-1` over `-2^63`, and its product with
`2` comes out as `+1/2^62`. Readability is exactly what the operations rely on.

Main statement: `arithmetic_exact_when_readable`.
-/

namespace Jianpu
namespace Frac

def value? : Frac → Option ℚ
  | ratio negative num den => some ((signedNum negative num : ℚ) / den)
  | _ => none

def InWords (q : ℚ) : Prop :=
  Decimal.i64Min < q.num ∧ q.num ≤ Decimal.i64Max ∧ (q.den : Int) ≤ Decimal.i64Max

instance (q : ℚ) : Decidable (InWords q) := inferInstanceAs (Decidable (_ ∧ _ ∧ _))

/-- The result `r` of an operation whose exact value is `q`: `q` itself when both of its parts
fit, and the indeterminate value when one does not. -/
def Exact (r : Frac) (q : ℚ) : Prop :=
  if InWords q then r.value? = some q else r = indeterminate

instance (r : Frac) (q : ℚ) : Decidable (Exact r q) :=
  inferInstanceAs (Decidable (if InWords q then _ else _))

/-- The fractions built from 64-bit parts: `make` of two words, and the sum, difference,
product and quotient of two built fractions. -/
inductive Built : Frac → Prop
  | make {x y : Int} : fitsWord x = true → fitsWord y = true → Built (make x y)
  | add {a b : Frac} : Built a → Built b → Built (a + b)
  | sub {a b : Frac} : Built a → Built b → Built (a - b)
  | mul {a b : Frac} : Built a → Built b → Built (a * b)
  | div {a b : Frac} : Built a → Built b → Built (a / b)

/-- The parts of the fraction read back as words are its own: the signed numerator fits a word,
and the denominator is below `2^63`. -/
def Readable : Frac → Prop
  | ratio negative num den =>
    fitsWord (signedNum negative num) = true ∧ (den : Int) ≤ Decimal.i64Max
  | _ => True

instance (f : Frac) : Decidable (Readable f) :=
  match f with
  | ratio .. => inferInstanceAs (Decidable (_ ∧ _))
  | infinite _ => isTrue trivial
  | indeterminate => isTrue trivial

/-- The sign of what the fraction stands for: of its signed numerator, of an infinity, and `0`
for the indeterminate value. -/
def signum : Frac → Int
  | ratio negative num _ => (signedNum negative num).sign
  | infinite negative => if negative then -1 else 1
  | indeterminate => 0

/-! ## Words -/

theorem fitsWord_iff {x : Int} :
    fitsWord x = true ↔ -9223372036854775808 ≤ x ∧ x ≤ 9223372036854775807 := by
  simp only [fitsWord, Bool.and_eq_true, decide_eq_true_eq]
  rfl

theorem fitsWide_iff {x : Int} :
    fitsWide x = true ↔
      -170141183460469231731687303715884105728 ≤ x ∧ x < 170141183460469231731687303715884105728 := by
  have h : Int.pow 2 127 = 170141183460469231731687303715884105728 := by decide
  simp only [fitsWide, h, Bool.and_eq_true, decide_eq_true_eq]

theorem word_eq_self {x : Int} (h : fitsWord x = true) : word x = x := by
  have h63 : Int.pow 2 63 = 9223372036854775808 := rfl
  have h64 : Int.pow 2 64 = 18446744073709551616 := rfl
  rw [fitsWord_iff] at h
  simp only [word, h63, h64]
  omega

theorem wide_eq_some {x : Int} (h : fitsWide x = true) : wide x = some x := by
  simp [wide, h]

theorem fitsWide_mul {x y : Int} (hx : fitsWord x = true) (hy : fitsWord y = true) :
    fitsWide (x * y) = true := by
  rw [fitsWord_iff] at hx hy
  rw [fitsWide_iff]
  constructor <;> nlinarith

theorem fitsWide_cross {x y d e : Int} (hx : fitsWord x = true) (hy : fitsWord y = true)
    (hd : 0 < d ∧ d ≤ Decimal.i64Max) (he : 0 < e ∧ e ≤ Decimal.i64Max) :
    fitsWide (x * e + y * d) = true ∧ fitsWide (x * e - y * d) = true := by
  rw [fitsWord_iff] at hx hy
  simp only [Decimal.i64Max] at hd he
  simp only [fitsWide_iff]
  refine ⟨⟨?_, ?_⟩, ?_, ?_⟩ <;> nlinarith

/-! ## Reducing a quotient -/

theorem reduce_num {n d : Int} (hd : 0 < d) :
    n / (Nat.gcd n.natAbs d.natAbs : Int) = ((n : ℚ) / d).num := by
  lift d to Nat using hd.le
  rw [Int.cast_natCast, ← Rat.mkRat_eq_div, Rat.num_mkRat, if_neg (by omega), Nat.gcd_comm,
    Int.natAbs_natCast]

theorem reduce_den {n d : Int} (hd : 0 < d) :
    d / (Nat.gcd n.natAbs d.natAbs : Int) = (((n : ℚ) / d).den : Int) := by
  lift d to Nat using hd.le
  rw [Int.cast_natCast, ← Rat.mkRat_eq_div, Rat.den_mkRat, if_neg (by omega), Nat.gcd_comm,
    Int.natAbs_natCast]
  push_cast
  rfl

/-- With a denominator that is not zero, `ofWide` gives the quotient in lowest terms when both
of its parts fit a word and the numerator is not `i64::MIN`, and the indeterminate value
otherwise. -/
theorem ofWide_some {n d : Int} (hd : d ≠ 0) :
    ofWide (some n) (some d) =
      let q : ℚ := n / d
      if fitsWord q.num && fitsWord q.den && q.num != Decimal.i64Min then make q.num q.den
      else indeterminate := by
  have hg : 0 < Nat.gcd n.natAbs d.natAbs := Nat.gcd_pos_of_pos_right _ (Int.natAbs_pos.2 hd)
  have hmax : (Max.max (Nat.gcd n.natAbs d.natAbs : Int) 1) = Nat.gcd n.natAbs d.natAbs := by
    omega
  unfold ofWide
  simp only [if_neg hd, hmax]
  by_cases hneg : d < 0
  · -- both signs flip, which leaves the quotient as it was
    have hq : ((-n : Int) : ℚ) / ((-d : Int) : ℚ) = (n : ℚ) / d := by
      push_cast
      exact neg_div_neg_eq _ _
    have hgcd : Nat.gcd (-n).natAbs (-d).natAbs = Nat.gcd n.natAbs d.natAbs := by
      simp only [Int.natAbs_neg]
    rw [if_pos hneg, ← hgcd, reduce_num (by omega), reduce_den (by omega), hq]
  · rw [if_neg hneg, reduce_num (by omega), reduce_den (by omega)]

theorem signedNum_natAbs (x : Int) : signedNum (decide (x < 0)) x.natAbs = x := by
  by_cases h : x < 0
  · simp only [signedNum, h, decide_true, if_true]
    rw [Int.ofNat_natAbs_of_nonpos h.le, Int.neg_neg]
  · simp only [signedNum, h, decide_false]
    exact Int.natAbs_of_nonneg (by omega)

theorem make_num_den (q : ℚ) :
    make q.num q.den = ratio (decide (q.num < 0)) q.num.natAbs q.den := by
  unfold make
  rw [if_neg (by exact_mod_cast q.den_nz)]
  simp only [Int.natAbs_natCast, q.reduced.gcd_eq_one, Nat.div_one]
  congr 1
  by_cases h : q.num < 0
  · simp only [h, decide_true]
    simp [Int.ne_of_lt h]
  · simp [h]

theorem value?_make_num_den (q : ℚ) : (make q.num q.den).value? = some q := by
  rw [make_num_den, value?, signedNum_natAbs]
  exact congrArg some (Rat.num_div_den q)

theorem inWords_iff (q : ℚ) :
    (fitsWord q.num && fitsWord q.den && q.num != Decimal.i64Min) = true ↔ InWords q := by
  have hden : (0 : Int) < q.den := by exact_mod_cast q.den_pos
  simp only [Bool.and_eq_true, bne_iff_ne, ne_eq, fitsWord_iff, InWords, Decimal.i64Min,
    Decimal.i64Max]
  omega

theorem exact_ofWide {n d : Int} (hd : d ≠ 0) : Exact (ofWide (some n) (some d)) (n / d) := by
  rw [ofWide_some hd, Exact]
  dsimp only
  by_cases h : InWords ((n : ℚ) / d)
  · rw [if_pos h, if_pos ((inWords_iff _).2 h), value?_make_num_den]
  · rw [if_neg h, if_neg (mt (inWords_iff _).1 h)]

/-! ## Every fraction made has a positive denominator -/

def Proper : Frac → Prop
  | ratio _ _ den => 0 < den
  | _ => True

theorem proper_make (x y : Int) : Proper (make x y) := by
  unfold make
  split
  · split <;> trivial
  · rename_i hy
    have hg : 0 < Nat.gcd x.natAbs y.natAbs := Nat.gcd_pos_of_pos_right _ (Int.natAbs_pos.2 hy)
    exact Nat.div_pos (Nat.gcd_le_right _ (Int.natAbs_pos.2 hy)) hg

theorem proper_ofWide : ∀ n d : Option Int, Proper (ofWide n d)
  | some n, some d => by
    by_cases hd : d = 0
    · simp only [ofWide, if_pos hd]
      exact proper_make ..
    · rw [ofWide_some hd]
      dsimp only
      split
      · exact proper_make ..
      · trivial
  | none, _ => trivial
  | some _, none => trivial

/-! Each operation gives `ofWide` of two finite operands, and a sentinel or zero otherwise. -/

theorem proper_add (a b : Frac) : Proper (a + b) := by
  show Proper (add a b)
  unfold add
  split
  · exact proper_ofWide ..
  · trivial
  · trivial
  · split <;> trivial
  · trivial
  · trivial

theorem proper_sub (a b : Frac) : Proper (a - b) := by
  show Proper (sub a b)
  unfold sub
  split
  · exact proper_ofWide ..
  · trivial
  · trivial
  · split <;> trivial
  · trivial
  · trivial

theorem proper_mul (a b : Frac) : Proper (a * b) := by
  show Proper (mul a b)
  unfold mul
  split
  · exact proper_ofWide ..
  · trivial
  · trivial
  · trivial
  · split <;> trivial
  · split <;> trivial

theorem proper_div (a b : Frac) : Proper (a / b) := by
  show Proper (div a b)
  unfold div
  split
  · exact proper_make ..
  · split
    · exact proper_ofWide ..
    · trivial
    · trivial
    · trivial
    · trivial
    · show 0 < 1
      omega

theorem Built.proper {f : Frac} (h : Built f) : Proper f := by
  cases h with
  | make _ _ => exact proper_make ..
  | add _ _ => exact proper_add ..
  | sub _ _ => exact proper_sub ..
  | mul _ _ => exact proper_mul ..
  | div _ _ => exact proper_div ..

/-! ## The operations on readable operands -/

section Readable

variable {s t : Bool} {n m d e : Nat}

theorem numer_of_readable (h : Readable (ratio s n d)) : (ratio s n d).numer = signedNum s n :=
  word_eq_self h.1

theorem denom_of_readable (h : Readable (ratio s n d)) : (ratio s n d).denom = d :=
  word_eq_self (fitsWord_iff.2 ⟨by omega, h.2⟩)

theorem fitsWord_den (h : Readable (ratio s n d)) : fitsWord d = true :=
  fitsWord_iff.2 ⟨by omega, h.2⟩

variable (ha : Readable (ratio s n d)) (hb : Readable (ratio t m e)) (hd : 0 < d) (he : 0 < e)
include ha hb hd he

theorem fitsWide_operands :
    fitsWide (signedNum s n * e) = true ∧ fitsWide (signedNum t m * d) = true ∧
      fitsWide (signedNum s n * e + signedNum t m * d) = true ∧
      fitsWide (signedNum s n * e - signedNum t m * d) = true ∧
      fitsWide (signedNum s n * signedNum t m) = true ∧ fitsWide (d * e : Int) = true ∧
      fitsWide (d * signedNum t m) = true := by
  have hd' : (0 : Int) < d ∧ (d : Int) ≤ Decimal.i64Max := ⟨by omega, ha.2⟩
  have he' : (0 : Int) < e ∧ (e : Int) ≤ Decimal.i64Max := ⟨by omega, hb.2⟩
  exact ⟨fitsWide_mul ha.1 (fitsWord_den hb), fitsWide_mul hb.1 (fitsWord_den ha),
    (fitsWide_cross ha.1 hb.1 hd' he').1, (fitsWide_cross ha.1 hb.1 hd' he').2,
    fitsWide_mul ha.1 hb.1, fitsWide_mul (fitsWord_den ha) (fitsWord_den hb),
    fitsWide_mul (fitsWord_den ha) hb.1⟩

theorem add_ratio : ratio s n d + ratio t m e =
    ofWide (some (signedNum s n * e + signedNum t m * d)) (some (d * e)) := by
  obtain ⟨h₁, h₂, h₃, -, -, h₆, -⟩ := fitsWide_operands ha hb hd he
  show add _ _ = _
  simp only [add, numer_of_readable ha, numer_of_readable hb, denom_of_readable ha,
    denom_of_readable hb, wide_eq_some h₁, wide_eq_some h₂, wide_eq_some h₆, Option.bind_eq_bind,
    Option.bind_some, wide_eq_some h₃]

theorem sub_ratio : ratio s n d - ratio t m e =
    ofWide (some (signedNum s n * e - signedNum t m * d)) (some (d * e)) := by
  obtain ⟨h₁, h₂, -, h₄, -, h₆, -⟩ := fitsWide_operands ha hb hd he
  show sub _ _ = _
  simp only [sub, numer_of_readable ha, numer_of_readable hb, denom_of_readable ha,
    denom_of_readable hb, wide_eq_some h₁, wide_eq_some h₂, wide_eq_some h₆, Option.bind_eq_bind,
    Option.bind_some, wide_eq_some h₄]

theorem mul_ratio : ratio s n d * ratio t m e =
    ofWide (some (signedNum s n * signedNum t m)) (some (d * e)) := by
  obtain ⟨-, -, -, -, h₅, h₆, -⟩ := fitsWide_operands ha hb hd he
  show mul _ _ = _
  simp only [mul, numer_of_readable ha, numer_of_readable hb, denom_of_readable ha,
    denom_of_readable hb, wide_eq_some h₅, wide_eq_some h₆]

theorem div_ratio (hm : m ≠ 0) : ratio s n d / ratio t m e =
    ofWide (some (signedNum s n * e)) (some (d * signedNum t m)) := by
  obtain ⟨h₁, -, -, -, -, -, h₇⟩ := fitsWide_operands ha hb hd he
  have hnz : (ratio t m e).isZero = false := by
    simp only [isZero, isFinite, numer_of_readable hb, Bool.true_and, beq_eq_false_iff_ne]
    unfold signedNum
    split <;> omega
  show div _ _ = _
  simp only [div, hnz, numer_of_readable ha, numer_of_readable hb, denom_of_readable ha,
    denom_of_readable hb, wide_eq_some h₁, wide_eq_some h₇]
  rfl

/-! The exact results: each operation is `ofWide` of a numerator and denominator whose quotient
is the exact value. -/

theorem exact_add : Exact (ratio s n d + ratio t m e)
    ((signedNum s n : ℚ) / d + (signedNum t m : ℚ) / e) := by
  have hq : (((signedNum s n * e + signedNum t m * d : Int) : ℚ) / ((d * e : Int) : ℚ)) =
      (signedNum s n : ℚ) / d + (signedNum t m : ℚ) / e := by
    push_cast
    field_simp
  rw [add_ratio ha hb hd he, ← hq]
  exact exact_ofWide (by positivity)

theorem exact_sub : Exact (ratio s n d - ratio t m e)
    ((signedNum s n : ℚ) / d - (signedNum t m : ℚ) / e) := by
  have hq : (((signedNum s n * e - signedNum t m * d : Int) : ℚ) / ((d * e : Int) : ℚ)) =
      (signedNum s n : ℚ) / d - (signedNum t m : ℚ) / e := by
    push_cast
    field_simp
  rw [sub_ratio ha hb hd he, ← hq]
  exact exact_ofWide (by positivity)

theorem exact_mul : Exact (ratio s n d * ratio t m e)
    ((signedNum s n : ℚ) / d * ((signedNum t m : ℚ) / e)) := by
  have hq : (((signedNum s n * signedNum t m : Int) : ℚ) / ((d * e : Int) : ℚ)) =
      (signedNum s n : ℚ) / d * ((signedNum t m : ℚ) / e) := by
    push_cast
    rw [div_mul_div_comm]
  rw [mul_ratio ha hb hd he, ← hq]
  exact exact_ofWide (by positivity)

/-- `2^-62` squared needs a denominator of `2^124`: the product is indeterminate. -/
example : make 1 (2 ^ 62) * make 1 (2 ^ 62) = indeterminate := by decide

theorem exact_div (hm : m ≠ 0) : Exact (ratio s n d / ratio t m e)
    ((signedNum s n : ℚ) / d / ((signedNum t m : ℚ) / e)) := by
  have hB : signedNum t m ≠ 0 := by
    unfold signedNum
    split <;> omega
  have hq : (((signedNum s n * e : Int) : ℚ) / ((d * signedNum t m : Int) : ℚ)) =
      (signedNum s n : ℚ) / d / ((signedNum t m : ℚ) / e) := by
    push_cast
    field_simp
  rw [div_ratio ha hb hd he hm, ← hq]
  exact exact_ofWide (mul_ne_zero (by omega) hB)

end Readable

/-! ## The sentinels -/

@[simp] theorem indeterminate_add (b : Frac) : indeterminate + b = indeterminate := by
  cases b <;> rfl

@[simp] theorem add_indeterminate (a : Frac) : a + indeterminate = indeterminate := by
  cases a <;> rfl

@[simp] theorem indeterminate_sub (b : Frac) : indeterminate - b = indeterminate := by
  cases b <;> rfl

@[simp] theorem sub_indeterminate (a : Frac) : a - indeterminate = indeterminate := by
  cases a <;> rfl

@[simp] theorem indeterminate_mul (b : Frac) : indeterminate * b = indeterminate := by
  cases b <;> rfl

@[simp] theorem mul_indeterminate (a : Frac) : a * indeterminate = indeterminate := by
  cases a <;> rfl

@[simp] theorem indeterminate_div (b : Frac) : indeterminate / b = indeterminate := by
  show div _ _ = _
  unfold div
  split
  · rfl
  · cases b <;> rfl

@[simp] theorem div_indeterminate (a : Frac) : a / indeterminate = indeterminate := by
  cases a <;> rfl

theorem make_zero_den (x : Int) :
    make x 0 = if 0 < x then infinite false else if x < 0 then infinite true else indeterminate := by
  unfold make
  by_cases hpos : 0 < x
  · simp [hpos, Int.ne_of_gt hpos, Int.not_lt.2 hpos.le]
  · by_cases hneg : x < 0
    · simp [hpos, hneg, Int.ne_of_lt hneg]
    · simp [show x = 0 by omega]

theorem sign_numer {a : Frac} (ha : Readable a) : a.numer.sign = a.signum := by
  cases a with
  | ratio s n d => rw [numer_of_readable ha, signum]
  | infinite s => cases s <;> rfl
  | indeterminate => rfl

theorem div_zero {a z : Frac} (ha : Readable a) (hz : z.isZero = true) :
    a / z = if 0 < a.signum then infinite false else if a.signum < 0 then infinite true
      else indeterminate := by
  show div _ _ = _
  unfold div
  rw [if_pos hz, sign_numer ha, make_zero_den]

/-! ## Sums and products do not depend on the order of their operands -/

theorem add_comm (a b : Frac) : a + b = b + a := by
  show add a b = add b a
  cases a <;> cases b
  case ratio.ratio s n d t m e =>
    simp only [add, Int.mul_comm (ratio s n d).denom]
    cases wide ((ratio s n d).numer * (ratio t m e).denom) <;>
      cases wide ((ratio t m e).numer * (ratio s n d).denom) <;> simp [Int.add_comm]
  case infinite.infinite s t =>
    by_cases h : s = t
    · subst h
      rfl
    · simp [add, h, Ne.symm h]
  all_goals rfl

theorem mul_comm (a b : Frac) : a * b = b * a := by
  show mul a b = mul b a
  cases a <;> cases b
  case ratio.ratio s n d t m e =>
    simp only [mul, Int.mul_comm (ratio s n d).numer, Int.mul_comm (ratio s n d).denom]
  case infinite.infinite s t =>
    cases s <;> cases t <;> rfl
  all_goals rfl

/-! ## The statement -/

/-- **Fraction arithmetic is exact or indeterminate, on operands that read back as they are.**
For built fractions standing for `x` and `y` whose parts read back as their own, the sum,
difference, product and quotient (for `y ≠ 0`) are each the exact result when both of its
parts in lowest terms lie in `(i64::MIN, i64::MAX]`, and the indeterminate value otherwise.
The indeterminate value absorbs all four operations; division by zero gives the infinity of
the dividend's sign, or the indeterminate value for a dividend without one; sums and products
do not depend on the order of their operands, sentinels included. -/
theorem arithmetic_exact_when_readable (a b : Frac) :
    (∀ x y : ℚ, Built a → Built b → Readable a → Readable b → a.value? = some x →
      b.value? = some y →
      Exact (a + b) (x + y) ∧ Exact (a - b) (x - y) ∧ Exact (a * b) (x * y) ∧
        (y ≠ 0 → Exact (a / b) (x / y))) ∧
    (indeterminate + b = indeterminate ∧ a + indeterminate = indeterminate ∧
      indeterminate - b = indeterminate ∧ a - indeterminate = indeterminate ∧
      indeterminate * b = indeterminate ∧ a * indeterminate = indeterminate ∧
      indeterminate / b = indeterminate ∧ a / indeterminate = indeterminate) ∧
    (Readable a → b.isZero = true → a / b = if 0 < a.signum then infinite false
      else if a.signum < 0 then infinite true else indeterminate) ∧
    a + b = b + a ∧ a * b = b * a := by
  refine ⟨fun x y hba hbb hra hrb hx hy => ?_, by simp, div_zero, add_comm a b, mul_comm a b⟩
  -- both operands are finite, with positive denominators since they were built
  cases a with
  | infinite _ | indeterminate => cases hx
  | ratio s n d =>
    cases b with
    | infinite _ | indeterminate => cases hy
    | ratio t m e =>
      have hd : 0 < d := hba.proper
      have he : 0 < e := hbb.proper
      simp only [value?, Option.some.injEq] at hx hy
      subst hx hy
      refine ⟨exact_add hra hrb hd he, exact_sub hra hrb hd he, exact_mul hra hrb hd he,
        fun hy => exact_div hra hrb hd he ?_⟩
      rintro rfl
      simp [signedNum] at hy

theorem arithmetic_exact_half_third :
    (Built (make 1 2) ∧ Built (make 1 3) ∧ Readable (make 1 2) ∧ Readable (make 1 3) ∧
      (make 1 2).value? = some (1 / 2) ∧ (make 1 3).value? = some (1 / 3) ∧ (1 / 3 : ℚ) ≠ 0 ∧
      Exact (make 1 2 / make 1 3) (1 / 2 / (1 / 3))) ∧
    (Readable (make 1 2) ∧ (make 0 1).isZero = true ∧ make 1 2 / make 0 1 = infinite false) := by
  have hb₁ : Built (make 1 2) := .make (by decide) (by decide)
  have hb₂ : Built (make 1 3) := .make (by decide) (by decide)
  have hr₁ : Readable (make 1 2) := by decide
  have hr₂ : Readable (make 1 3) := by decide
  have hv₁ : (make 1 2).value? = some (1 / 2) := by decide +kernel
  have hv₂ : (make 1 3).value? = some (1 / 3) := by decide +kernel
  have hz : (make 0 1).isZero = true := by decide
  refine ⟨⟨hb₁, hb₂, hr₁, hr₂, hv₁, hv₂, by norm_num,
    ((arithmetic_exact_when_readable _ _).1 _ _ hb₁ hb₂ hr₁ hr₂ hv₁ hv₂).2.2.2 (by norm_num)⟩,
    hr₁, hz, ?_⟩
  rw [(arithmetic_exact_when_readable (make 1 2) (make 0 1)).2.2.1 hr₁ hz]
  decide

/-- At a denominator of magnitude `2^63` the read-back turns the sign: `-1/2^63` times `2` comes
out as `+1/2^62`, which is neither the exact product nor indeterminate. -/
theorem product_at_wide_denominator_flips_sign :
    Built (make 1 Decimal.i64Min) ∧ Built (make 2 1) ∧
      (make 1 Decimal.i64Min).value? = some (-1 / 2 ^ 63) ∧ (make 2 1).value? = some 2 ∧
      make 1 Decimal.i64Min * make 2 1 = ratio false 1 (2 ^ 62) ∧
      ¬ Exact (make 1 Decimal.i64Min * make 2 1) (-1 / 2 ^ 63 * 2) :=
  ⟨.make (by decide) (by decide), .make (by decide) (by decide), by decide +kernel,
    by decide +kernel, by decide, by decide +kernel⟩

end Frac
end Jianpu
