import Mathlib
import Jianpu.Proofs.Frac.Reading
/-!
# The order of fractions, and sums that stay exact

`Frac.compare` puts the indeterminate value below everything, then `-∞`, the finite values by
the rational each stands for, and `+∞` on top. `rank` sends a fraction to that place in
`WithBot (WithBot (WithTop ℚ))`. On proper fractions (a positive denominator, as every `make`
and every operation gives) `compare` is the comparison of ranks, so it is a total preorder
there and `Frac.max` keeps the larger rank.

A sum is `ofWide` of its exact parts, so its parts always read back as words; adding readable
proper fractions one at a time therefore stays exact while the partial sums fit, and the
indeterminate value, once reached, stays.

* `compare_eq_lt_iff`, `compare_eq_gt_iff`, `le_iff_rank` — `compare` through ranks.
* `rank_max` — `Frac.max` keeps the larger rank.
* `readable_add`, `add_exact_step` — one step of a running sum.
* `positive_mul`, `nonNeg_add_positive` — products of positive fractions stay positive, and
  sums grow by a positive term, unless they turn indeterminate.
-/

namespace Jianpu
namespace Frac

/-- Where a fraction stands in the order `compare` follows: the indeterminate value at the
bottom, then `-∞`, the finite values by the rational they stand for, and `+∞` on top. -/
def rank : Frac → WithBot (WithBot (WithTop ℚ))
  | indeterminate => ⊥
  | infinite true => ↑(⊥ : WithBot (WithTop ℚ))
  | infinite false => ⊤
  | ratio negative num den =>
    ↑(↑(↑((signedNum negative num : ℚ) / den : ℚ) : WithTop ℚ) : WithBot (WithTop ℚ))

theorem rank_of_value? {f : Frac} {v : ℚ} (h : f.value? = some v) :
    f.rank = ↑(↑(↑v : WithTop ℚ) : WithBot (WithTop ℚ)) := by
  cases f with
  | ratio s n d =>
    simp only [value?, Option.some.injEq] at h
    rw [← h]
    rfl
  | infinite _ | indeterminate => cases h

theorem isFinite_of_value? {f : Frac} {v : ℚ} (h : f.value? = some v) : f.isFinite = true := by
  cases f with
  | ratio s n d => rfl
  | infinite _ | indeterminate => cases h

theorem rank_ratio_lt_iff {s t : Bool} {n m d e : Nat} (hd : 0 < d) (he : 0 < e) :
    rank (ratio s n d) < rank (ratio t m e) ↔ signedNum s n * e < signedNum t m * d := by
  have hd' : (0 : ℚ) < d := by exact_mod_cast hd
  have he' : (0 : ℚ) < e := by exact_mod_cast he
  simp only [rank, WithBot.coe_lt_coe, WithTop.coe_lt_coe]
  rw [div_lt_div_iff₀ hd' he']
  exact_mod_cast Iff.rfl

section Proper

variable {a b : Frac} (ha : Proper a) (hb : Proper b)
include ha hb

theorem compare_eq_lt_iff : compare a b = .lt ↔ rank a < rank b := by
  rcases a with ⟨s, n, d⟩ | ⟨_ | _⟩ | _ <;> rcases b with ⟨t, m, e⟩ | ⟨_ | _⟩ | _
  case ratio.ratio =>
    show Ord.compare _ _ = .lt ↔ _
    rw [compare_lt_iff_lt, rank_ratio_lt_iff ha hb]
  -- a sentinel on either side: the table of `compare` against the ranks
  all_goals simp [compare, rank, lt_top_iff_ne_top]

theorem compare_eq_gt_iff : compare a b = .gt ↔ rank b < rank a := by
  rcases a with ⟨s, n, d⟩ | ⟨_ | _⟩ | _ <;> rcases b with ⟨t, m, e⟩ | ⟨_ | _⟩ | _
  case ratio.ratio =>
    show Ord.compare _ _ = .gt ↔ _
    rw [compare_gt_iff_gt, rank_ratio_lt_iff hb ha]
  all_goals simp [compare, rank, lt_top_iff_ne_top]

theorem le_iff_rank : a ≤ b ↔ rank a ≤ rank b := by
  show compare a b ≠ .gt ↔ _
  rw [Ne, compare_eq_gt_iff ha hb, not_lt]

theorem lt_iff_rank : a < b ↔ rank a < rank b :=
  compare_eq_lt_iff ha hb

theorem rank_max : rank (Frac.max a b) = Max.max (rank a) (rank b) := by
  unfold Frac.max
  by_cases h : compare a b = .lt
  · rw [if_pos (by simp [h]), max_eq_right ((compare_eq_lt_iff ha hb).1 h).le]
  · rw [if_neg (by simpa using h), max_eq_left]
    exact not_lt.1 (mt (compare_eq_lt_iff ha hb).2 h)

end Proper

theorem proper_zero : Proper (0 : Frac) :=
  proper_make 0 1

theorem rank_zero : rank (0 : Frac) = ↑(↑(↑(0 : ℚ) : WithTop ℚ) : WithBot (WithTop ℚ)) :=
  rank_of_value? (by decide +kernel)

/-- A proper fraction is finite and above zero exactly when it stands for a positive
rational. -/
theorem finite_pos_iff {f : Frac} (hf : Proper f) :
    (f.isFinite = true ∧ compare f 0 = .gt) ↔ ∃ v, f.value? = some v ∧ 0 < v := by
  rw [compare_eq_gt_iff hf proper_zero, rank_zero]
  cases f with
  | ratio s n d =>
    simp only [isFinite, rank, value?, WithBot.coe_lt_coe, WithTop.coe_lt_coe, true_and,
      Option.some.injEq, exists_eq_left']
  | infinite _ | indeterminate => simp [isFinite, value?]

theorem pos_iff_compare {x : Frac} (hx : Proper x) : 0 < x ↔ compare x 0 = .gt := by
  rw [lt_iff_rank proper_zero hx, compare_eq_gt_iff hx proper_zero]

theorem finite_pos_of_rank {m : Frac} (hm : Proper m) (hinf : m ≠ infinite false)
    (h : rank 0 < rank m) : m.isFinite ∧ compare m 0 = .gt := by
  cases m with
  | ratio s n d => exact ⟨rfl, (compare_eq_gt_iff hm proper_zero).2 h⟩
  | infinite neg =>
    cases neg with
    | false => exact absurd rfl hinf
    | true =>
      rw [rank_zero] at h
      exact absurd h (by simp [rank])
  | indeterminate => exact absurd h (by simp [rank])

/-! ## Sums read back -/

/-- The parts of what `ofWide` gives always read back as words. -/
theorem readable_ofWide : ∀ n d : Option Int, Readable (ofWide n d)
  | some n, some d => by
    by_cases hd : d = 0
    · -- a zero denominator gives a sentinel
      simp only [ofWide, if_pos hd, make, if_true]
      split <;> trivial
    · rw [ofWide_some hd]
      dsimp only
      split
      · rename_i h
        rw [readable_num_den_iff]
        simp only [Bool.and_eq_true, bne_iff_ne] at h
        exact ⟨h.1.1, ((fitsWord_iff).1 h.1.2).2⟩
      · trivial
  | none, _ => trivial
  | some _, none => trivial

theorem readable_add (a b : Frac) : Readable (a + b) := by
  show Readable (add a b)
  unfold add
  split
  · exact readable_ofWide ..
  all_goals first | trivial | (split <;> trivial)

/-- One step of a running sum: adding a readable proper fraction to another gives the exact
sum or the indeterminate value, and again a readable proper fraction. -/
theorem add_exact_step {a b : Frac} {x y : ℚ} (ha : a.value? = some x) (hb : b.value? = some y)
    (hra : Readable a) (hrb : Readable b) (hpa : Proper a) (hpb : Proper b) :
    Exact (a + b) (x + y) ∧ Readable (a + b) ∧ Proper (a + b) := by
  refine ⟨?_, readable_add a b, proper_add a b⟩
  cases a with
  | ratio s n d =>
    cases b with
    | ratio t m e =>
      simp only [value?, Option.some.injEq] at ha hb
      rw [← ha, ← hb]
      exact exact_add hra hrb hpa hpb
    | infinite _ | indeterminate => cases hb
  | infinite _ | indeterminate => cases ha

theorem readable_mul (a b : Frac) : Readable (a * b) := by
  show Readable (mul a b)
  unfold mul
  split
  · exact readable_ofWide ..
  all_goals first | trivial | (split <;> trivial)

theorem mul_exact_step {a b : Frac} {x y : ℚ} (ha : a.value? = some x) (hb : b.value? = some y)
    (hra : Readable a) (hrb : Readable b) (hpa : Proper a) (hpb : Proper b) :
    Exact (a * b) (x * y) := by
  cases a with
  | ratio s n d =>
    cases b with
    | ratio t m e =>
      simp only [value?, Option.some.injEq] at ha hb
      rw [← ha, ← hb]
      exact exact_mul hra hrb hpa hpb
    | infinite _ | indeterminate => cases hb
  | infinite _ | indeterminate => cases ha

/-! ## Signs -/

def Positive (f : Frac) : Prop :=
  Readable f ∧ Proper f ∧ ∃ v, f.value? = some v ∧ 0 < v

/-- A fraction standing for a rational of at least zero, with parts that read back as its
own. -/
def NonNeg (f : Frac) : Prop :=
  Readable f ∧ Proper f ∧ ∃ v, f.value? = some v ∧ 0 ≤ v

theorem ne_indeterminate_of_isIndeterminate {f : Frac} (h : f.isIndeterminate = false) :
    f ≠ indeterminate := by
  rintro rfl
  cases h

/-- `x/y` for two positive words stands for a positive rational. -/
theorem positive_make {x y : Int} (hx : 0 < x) (hy : 0 < y) (hxw : x ≤ Decimal.i64Max)
    (hyw : y ≤ Decimal.i64Max) : Positive (make x y) := by
  have hg : 0 < Nat.gcd x.natAbs y.natAbs := Nat.gcd_pos_of_pos_left _ (by omega)
  have hnum : 0 < x.natAbs / Nat.gcd x.natAbs y.natAbs :=
    Nat.div_pos (Nat.le_of_dvd (by omega) (Nat.gcd_dvd_left _ _)) hg
  have hden : 0 < y.natAbs / Nat.gcd x.natAbs y.natAbs :=
    Nat.div_pos (Nat.le_of_dvd (by omega) (Nat.gcd_dvd_right _ _)) hg
  have hnle : x.natAbs / Nat.gcd x.natAbs y.natAbs ≤ x.natAbs := Nat.div_le_self _ _
  have hdle : y.natAbs / Nat.gcd x.natAbs y.natAbs ≤ y.natAbs := Nat.div_le_self _ _
  have hsign : ((decide (x < 0) != decide (y < 0)) && x != 0) = false := by
    simp [not_lt.2 hx.le, not_lt.2 hy.le]
  unfold make
  rw [if_neg (by omega), hsign]
  refine ⟨⟨?_, ?_⟩, hden, _, rfl, ?_⟩
  · -- the numerator is at most `x`, so it fits a word
    simp only [signedNum, Bool.false_eq_true, if_false, fitsWord, Decimal.i64Min,
      Decimal.i64Max] at hxw ⊢
    simp only [Bool.and_eq_true, decide_eq_true_eq]
    omega
  · simp only [Decimal.i64Max] at hyw ⊢
    omega
  · simp only [signedNum, Bool.false_eq_true, if_false]
    positivity

theorem positive_one : Positive (1 : Frac) :=
  positive_make (show (0 : Int) < 1 by decide) (show (0 : Int) < 1 by decide) (by decide)
    (by decide)

theorem positive_mul {a b : Frac} (ha : Positive a) (hb : Positive b) :
    Positive (a * b) ∨ a * b = indeterminate := by
  obtain ⟨hra, hpa, x, hx, hx0⟩ := ha
  obtain ⟨hrb, hpb, y, hy, hy0⟩ := hb
  have hexact := mul_exact_step hx hy hra hrb hpa hpb
  unfold Exact at hexact
  split at hexact
  · exact .inl ⟨readable_mul a b, proper_mul a b, x * y, hexact, mul_pos hx0 hy0⟩
  · exact .inr hexact

theorem positive_mul_or {a b : Frac} (ha : Positive a ∨ a = indeterminate) (hb : Positive b) :
    Positive (a * b) ∨ a * b = indeterminate := by
  rcases ha with ha | rfl
  · exact positive_mul ha hb
  · exact .inr (indeterminate_mul b)

/-- A positive term added to a fraction of at least zero gives a larger one, or the
indeterminate value when its parts do not fit. -/
theorem nonNeg_add_positive {a b : Frac} (ha : NonNeg a) (hb : Positive b) :
    (NonNeg (a + b) ∧ ∃ u v, a.value? = some u ∧ (a + b).value? = some v ∧ u < v) ∨
      a + b = indeterminate := by
  obtain ⟨hra, hpa, x, hx, hx0⟩ := ha
  obtain ⟨hrb, hpb, y, hy, hy0⟩ := hb
  obtain ⟨hexact, hr, hp⟩ := add_exact_step hx hy hra hrb hpa hpb
  unfold Exact at hexact
  split at hexact
  · exact .inl ⟨⟨hr, hp, x + y, hexact, by linarith⟩, x, x + y, hx, hexact, by linarith⟩
  · exact .inr hexact

end Frac
end Jianpu
