import Mathlib
import Jianpu.Proofs.Frac.Compare
import Jianpu.Proofs.Music.Meter
/-!
# The swing of positions

A swing meter moves every position within its period `p`: the first half of the period is
stretched to two thirds of it (slope `4/3`), the second half pressed into the last third
(slope `2/3`). The two pieces meet at the half period, where both give `2p/3`, and the second
ends at `p`, where the next period starts again at its own start. So the swing, exactly, is a
strictly increasing map that keeps period starts in place and commutes with a shift by whole
periods.

`warp` computes it in fractions: a division, a floor, and five products and sums. Each is exact
while its exact value has both parts in words (`SwingFits`), so on those positions `warp` stands
for the exact swing and inherits its laws.

* `warpWithin`, `swingQ` — the swing within one period, and of any position, in rationals.
* `swingQ_lt`, `swingQ_add_periods` — strictly increasing, and shifted by whole periods.
* `StandsFor` — a fraction whose parts read back as its own, standing for a rational.
* `SwingFits` — no step of the swing of a position overflows.
* `warp_standsFor` — `warp` stands for the exact swing.
* `warp_swing_laws` — the laws of the swing for the two periods of swing meters.
-/

namespace Jianpu

/-! ## The swing in rationals -/

/-- The swing of a position `r` within a period `p`: the first half stretched by `4/3`, the
second half pressed by `2/3` after `2p/3`. -/
def warpWithin (p r : ℚ) : ℚ :=
  if r ≤ p / 2 then r * (4 / 3) else p * (2 / 3) + (r - p / 2) * (2 / 3)

def periodRest (p q : ℚ) : ℚ := q - p * ⌊q / p⌋

def swingQ (p q : ℚ) : ℚ := p * ⌊q / p⌋ + warpWithin p (periodRest p q)

section Rational

theorem warpWithin_lt {p r r' : ℚ} (hr : r < r') : warpWithin p r < warpWithin p r' := by
  unfold warpWithin
  split <;> split
  · linarith
  · -- `r` on the first piece, `r'` on the second: both sides of `2p/3`
    linarith
  · linarith
  · linarith

theorem warpWithin_lt_period {p r : ℚ} (hr : r < p) : warpWithin p r < p := by
  unfold warpWithin
  split <;> linarith

variable {p : ℚ} (hp : 0 < p)
include hp

theorem periodRest_nonneg (q : ℚ) : 0 ≤ periodRest p q := by
  have h := Int.floor_le (q / p)
  rw [le_div_iff₀ hp] at h
  unfold periodRest
  linarith

theorem periodRest_lt (q : ℚ) : periodRest p q < p := by
  have h := Int.lt_floor_add_one (q / p)
  rw [div_lt_iff₀ hp] at h
  unfold periodRest
  linarith

theorem warpWithin_nonneg {r : ℚ} (hr : 0 ≤ r) : 0 ≤ warpWithin p r := by
  unfold warpWithin
  split <;> linarith

/-- The swing is strictly increasing. -/
theorem swingQ_lt {q q' : ℚ} (h : q < q') : swingQ p q < swingQ p q' := by
  have hk : ⌊q / p⌋ ≤ ⌊q' / p⌋ := Int.floor_mono (div_le_div_of_nonneg_right h.le hp.le)
  rcases hk.lt_or_eq with hk | hk
  · -- a later period: the swing of `q` ends before that period starts
    have hk' : (⌊q / p⌋ : ℚ) + 1 ≤ ⌊q' / p⌋ := by exact_mod_cast hk
    have h₁ := warpWithin_lt_period (periodRest_lt hp q)
    have h₂ := warpWithin_nonneg hp (periodRest_nonneg hp q')
    calc swingQ p q < p * ⌊q / p⌋ + p := by unfold swingQ; linarith
      _ = p * (⌊q / p⌋ + 1) := by ring
      _ ≤ p * ⌊q' / p⌋ := mul_le_mul_of_nonneg_left hk' hp.le
      _ ≤ swingQ p q' := by unfold swingQ; linarith
  · -- the same period: the rests keep their order
    have hrest : periodRest p q < periodRest p q' := by
      unfold periodRest
      rw [hk]
      linarith
    unfold swingQ
    rw [hk]
    linarith [@warpWithin_lt p _ _ hrest]

theorem swingQ_add_periods (q : ℚ) (k : ℤ) : swingQ p (q + k * p) = swingQ p q + k * p := by
  have hfloor : ⌊(q + k * p) / p⌋ = ⌊q / p⌋ + k := by
    rw [add_div, mul_div_cancel_right₀ _ hp.ne', Int.floor_add_intCast]
  have hrest : periodRest p (q + k * p) = periodRest p q := by
    unfold periodRest
    rw [hfloor]
    push_cast
    ring
  unfold swingQ
  rw [hrest, hfloor]
  push_cast
  ring

theorem swingQ_periods (k : ℤ) : swingQ p (k * p) = k * p := by
  have h := swingQ_add_periods hp 0 k
  rw [zero_add] at h
  have hhalf : (0 : ℚ) ≤ p / 2 := by positivity
  rw [h]
  simp [swingQ, periodRest, warpWithin, hhalf]

end Rational

/-! ## Fractions standing for rationals -/

namespace Frac

theorem readable_sub (a b : Frac) : Readable (a - b) := by
  show Readable (sub a b)
  unfold sub
  split
  · exact readable_ofWide ..
  all_goals first | trivial | (split <;> trivial)

theorem readable_div (a b : Frac) : Readable (a / b) := by
  show Readable (div a b)
  unfold div
  split
  · -- division by zero gives a sentinel
    rw [make, if_pos rfl]
    split <;> trivial
  · split
    · exact readable_ofWide ..
    all_goals trivial

/-- `f` stands for the rational `q`: a fraction with a positive denominator, whose parts read
back as its own, and whose value is `q`. -/
def StandsFor (f : Frac) (q : ℚ) : Prop :=
  Readable f ∧ Proper f ∧ f.value? = some q

theorem standsFor_of_exact {r : Frac} {q : ℚ} (hr : Readable r) (hp : Proper r) (he : Exact r q)
    (hq : InWords q) : StandsFor r q := by
  unfold Exact at he
  rw [if_pos hq] at he
  exact ⟨hr, hp, he⟩

namespace StandsFor

variable {a b : Frac} {x y : ℚ}

theorem eq_ratio (ha : StandsFor a x) :
    ∃ s n d, a = ratio s n d ∧ (signedNum s n : ℚ) / d = x := by
  obtain ⟨-, -, hx⟩ := ha
  cases a with
  | ratio s n d => exact ⟨s, n, d, rfl, Option.some.inj hx⟩
  | infinite _ | indeterminate => cases hx

theorem add (ha : StandsFor a x) (hb : StandsFor b y) (hw : InWords (x + y)) :
    StandsFor (a + b) (x + y) := by
  obtain ⟨he, hr, hp⟩ := add_exact_step ha.2.2 hb.2.2 ha.1 hb.1 ha.2.1 hb.2.1
  exact standsFor_of_exact hr hp he hw

theorem mul (ha : StandsFor a x) (hb : StandsFor b y) (hw : InWords (x * y)) :
    StandsFor (a * b) (x * y) :=
  standsFor_of_exact (readable_mul a b) (proper_mul a b)
    (mul_exact_step ha.2.2 hb.2.2 ha.1 hb.1 ha.2.1 hb.2.1) hw

theorem sub (ha : StandsFor a x) (hb : StandsFor b y) (hw : InWords (x - y)) :
    StandsFor (a - b) (x - y) := by
  refine standsFor_of_exact (readable_sub a b) (proper_sub a b) ?_ hw
  obtain ⟨s, n, d, rfl, rfl⟩ := ha.eq_ratio
  obtain ⟨t, m, e, rfl, rfl⟩ := hb.eq_ratio
  exact exact_sub ha.1 hb.1 ha.2.1 hb.2.1

theorem div (ha : StandsFor a x) (hb : StandsFor b y) (hy : y ≠ 0) (hw : InWords (x / y)) :
    StandsFor (a / b) (x / y) := by
  refine standsFor_of_exact (readable_div a b) (proper_div a b) ?_ hw
  obtain ⟨s, n, d, rfl, rfl⟩ := ha.eq_ratio
  obtain ⟨t, m, e, rfl, rfl⟩ := hb.eq_ratio
  -- a divisor standing for a nonzero rational has a nonzero numerator
  have hm : m ≠ 0 := by
    rintro rfl
    simp [signedNum] at hy
  exact exact_div ha.1 hb.1 ha.2.1 hb.2.1 hm

theorem floor (ha : StandsFor a x) : a.floor = ⌊x⌋ := by
  obtain ⟨s, n, d, rfl, rfl⟩ := ha.eq_ratio
  rw [Rat.floor_intCast_div_natCast]
  simp only [Frac.floor, isFinite, if_true, numer_of_readable ha.1, denom_of_readable ha.1]

theorem le_iff (ha : StandsFor a x) (hb : StandsFor b y) : a ≤ b ↔ x ≤ y := by
  rw [le_iff_rank ha.2.1 hb.2.1, rank_of_value? ha.2.2, rank_of_value? hb.2.2]
  simp only [WithBot.coe_le_coe, WithTop.coe_le_coe]

theorem lt_iff (ha : StandsFor a x) (hb : StandsFor b y) : a < b ↔ x < y := by
  rw [lt_iff_rank ha.2.1 hb.2.1, rank_of_value? ha.2.2, rank_of_value? hb.2.2]
  simp only [WithBot.coe_lt_coe, WithTop.coe_lt_coe]

theorem compare_eq (ha : StandsFor a x) (hb : StandsFor b x) : compare a b = .eq := by
  rw [compare_of_value? ha.2.1 hb.2.1 ha.2.2 hb.2.2]
  exact compare_eq_iff_eq.2 rfl

end StandsFor

theorem standsFor_num_den (q : ℚ) (hn : fitsWord q.num = true)
    (hd : (q.den : Int) ≤ Decimal.i64Max) : StandsFor (make q.num q.den) q :=
  ⟨(readable_num_den_iff q).2 ⟨hn, hd⟩, proper_make _ _, value?_make_num_den q⟩

theorem standsFor_ofInt {k : Int} (hk : fitsWord k = true) : StandsFor (ofInt k) k := by
  have h := standsFor_num_den (k : ℚ) (by simpa using hk) (by simp [Decimal.i64Max])
  rw [Rat.num_intCast, Rat.den_intCast, Nat.cast_one] at h
  exact h

theorem fitsWord_floor {v : ℚ} (hv : InWords v) (h0 : 0 ≤ v) : fitsWord ⌊v⌋ = true := by
  have hnum : 0 ≤ v.num := Rat.num_nonneg.2 h0
  have hle : v.num / (v.den : Int) ≤ v.num := Int.ediv_le_self _ hnum
  have hpos : 0 ≤ v.num / (v.den : Int) := Int.ediv_nonneg hnum (by positivity)
  rw [Rat.floor_def', fitsWord_iff]
  obtain ⟨-, hmax, -⟩ := hv
  simp only [Decimal.i64Max] at hmax ⊢
  omega

@[simp] theorem inWords_zero : InWords 0 := by
  simp [InWords, Decimal.i64Min, Decimal.i64Max]

theorem inWords_natCast_div {x y : ℕ} (hx : 0 < x) (hy : 0 < y) (hxw : x < 2 ^ 63)
    (hyw : y < 2 ^ 63) : InWords ((x : ℚ) / y) := by
  have h := Meter.inWords_div (x := x) (y := y) (by omega) (by omega)
    (by simp only [Decimal.i64Max]; omega) (by simp only [Decimal.i64Max]; omega)
  simpa only [Int.cast_natCast] using h

theorem standsFor_make {x y : Int} (hy : y ≠ 0) (hw : InWords ((x : ℚ) / y)) :
    StandsFor (make x y) ((x : ℚ) / y) := by
  rw [make_eq_num_den hy]
  obtain ⟨hmin, hmax, hden⟩ := hw
  exact standsFor_num_den _ (fitsWord_iff.2 ⟨by simp only [Decimal.i64Min] at hmin; omega, hmax⟩)
    hden

theorem standsFor_make_natCast {x y : ℕ} (hx : 0 < x) (hy : 0 < y) (hxw : x < 2 ^ 63)
    (hyw : y < 2 ^ 63) : StandsFor (make x y) ((x : ℚ) / y) := by
  have h := standsFor_make (x := x) (y := y) (by omega)
    (by simpa only [Int.cast_natCast] using inWords_natCast_div hx hy hxw hyw)
  simpa only [Int.cast_natCast] using h

theorem standsFor_one : StandsFor 1 1 := by
  have h := standsFor_make_natCast (x := 1) (y := 1) one_pos one_pos (by norm_num) (by norm_num)
  simp only [Nat.cast_one, div_one] at h
  exact h

theorem standsFor_half : StandsFor (make 1 2) (1 / 2) := by
  exact_mod_cast standsFor_make_natCast (x := 1) (y := 2) one_pos two_pos (by norm_num) (by norm_num)

theorem standsFor_twoThirds : StandsFor (make 2 3) (2 / 3) := by
  exact_mod_cast standsFor_make_natCast (x := 2) (y := 3) two_pos three_pos (by norm_num)
    (by norm_num)

theorem standsFor_fourThirds : StandsFor (make 4 3) (4 / 3) := by
  exact_mod_cast standsFor_make_natCast (x := 4) (y := 3) four_pos three_pos (by norm_num)
    (by norm_num)

end Frac

open Frac

/-- No step of the swing of `q` over the period `p` overflows: the quotient by the period, the
period's start, the rest within the period, the products and sums of the piece the rest lies
on, and the swing itself all have both parts in words. -/
def SwingFits (p q : ℚ) : Prop :=
  InWords (q / p) ∧ InWords (p * ⌊q / p⌋) ∧ InWords (periodRest p q) ∧
    (periodRest p q ≤ p / 2 → InWords (periodRest p q * (4 / 3))) ∧
    (p / 2 < periodRest p q → InWords (periodRest p q - p / 2) ∧
      InWords ((periodRest p q - p / 2) * (2 / 3)) ∧ InWords (warpWithin p (periodRest p q))) ∧
    InWords (swingQ p q)

/-- **`warp` is the exact swing.** Over a period standing for `p > 0` whose half and two thirds
fit words, the swing of a fraction standing for `q ≥ 0` stands for the exact swing of `q`, when
no step of it overflows. -/
theorem warp_standsFor {P x : Frac} {p q : ℚ} (hP : StandsFor P p) (hp : 0 < p)
    (hhalf : InWords (p / 2)) (hthird : InWords (p * (2 / 3))) (hx : StandsFor x q)
    (hq : 0 ≤ q) (hfit : SwingFits p q) : StandsFor (warp P x) (swingQ p q) := by
  obtain ⟨hquot, hstart, hrest, hfirst, hsecond, hswing⟩ := hfit
  -- the period the position lies in, its start, and the rest within it
  have hdiv := hx.div hP hp.ne' hquot
  have hk := standsFor_ofInt (fitsWord_floor hquot (div_nonneg hq hp.le))
  have hbase : StandsFor (P * ofInt (x / P).floor) (p * ⌊q / p⌋) := by
    rw [hdiv.floor]
    exact hP.mul hk hstart
  have hr : StandsFor (x - P * ofInt (x / P).floor) (periodRest p q) := hx.sub hbase hrest
  have hh : StandsFor (P * make 1 2) (p / 2) :=
    mul_one_div p 2 ▸ hP.mul standsFor_half (by rwa [mul_one_div])
  unfold warp
  refine hbase.add ?_ hswing
  -- the piece the rest lies on, decided by the same comparison in fractions and in rationals
  unfold warpWithin
  by_cases hle : periodRest p q ≤ p / 2
  · rw [if_pos ((hr.le_iff hh).2 hle), if_pos hle]
    exact hr.mul standsFor_fourThirds (hfirst hle)
  · rw [if_neg (mt (hr.le_iff hh).1 hle), if_neg hle]
    obtain ⟨hd, hm, hw⟩ := hsecond (not_le.1 hle)
    unfold warpWithin at hw
    rw [if_neg hle] at hw
    exact (hP.mul standsFor_twoThirds hthird).add ((hr.sub hh hd).mul standsFor_twoThirds hm) hw

/-! ## The periods of swing meters -/

theorem Swing.period_standsFor {s : Swing} {P : Frac} {p : ℚ} (h : s.period = some P)
    (hp : P.value? = some p) : StandsFor P p ∧ (p = 1 ∨ p = 1 / 2) := by
  cases s with
  | none => cases h
  | eighth =>
    cases h
    obtain rfl : p = 1 := Option.some.inj (hp.symm.trans standsFor_one.2.2)
    exact ⟨standsFor_one, .inl rfl⟩
  | sixteenth =>
    cases h
    obtain rfl : p = 1 / 2 := Option.some.inj (hp.symm.trans standsFor_half.2.2)
    exact ⟨standsFor_half, .inr rfl⟩

theorem inWords_natCast {k : ℕ} (hk : fitsWord k = true) : InWords k := by
  have hkw := (fitsWord_iff.1 hk).2
  refine ⟨?_, ?_, ?_⟩ <;> simp only [Rat.num_natCast, Rat.den_natCast, Decimal.i64Min,
    Decimal.i64Max] at * <;> omega

section Periods

variable {p : ℚ} (hp : p = 1 ∨ p = 1 / 2)
include hp

theorem period_pos : 0 < p := by
  rcases hp with rfl | rfl <;> norm_num

theorem inWords_half_period : InWords (p / 2) := by
  rcases hp with rfl | rfl
  · exact_mod_cast inWords_natCast_div (x := 1) (y := 2) one_pos two_pos (by norm_num) (by norm_num)
  · norm_num
    exact_mod_cast inWords_natCast_div (x := 1) (y := 4) one_pos four_pos (by norm_num) (by norm_num)

theorem inWords_twoThirds_period : InWords (p * (2 / 3)) := by
  rcases hp with rfl | rfl
  · norm_num
    exact_mod_cast inWords_natCast_div (x := 2) (y := 3) two_pos three_pos (by norm_num)
      (by norm_num)
  · norm_num
    exact_mod_cast inWords_natCast_div (x := 1) (y := 3) one_pos three_pos (by norm_num)
      (by norm_num)

theorem inWords_periods {k : ℕ} (hk : fitsWord k = true) : InWords (k * p) := by
  rcases Nat.eq_zero_or_pos k with rfl | hpos
  · simp only [Nat.cast_zero, zero_mul, inWords_zero]
  rcases hp with rfl | rfl
  · rw [mul_one]
    exact inWords_natCast hk
  · have h := Meter.inWords_div (x := k) (y := 2) (by omega) (by decide)
      (fitsWord_iff.1 hk).2 (by decide)
    rw [show (k : ℚ) * (1 / 2) = ((k : ℤ) : ℚ) / ((2 : ℤ) : ℚ) by push_cast; ring]
    exact h

theorem standsFor_periods {P : Frac} (hP : StandsFor P p) {k : ℕ} (hk : fitsWord k = true) :
    StandsFor (ofInt k * P) (k * p) :=
  (standsFor_ofInt hk).mul hP (by exact_mod_cast inWords_periods hp hk)

/-- No step of the swing of a period start overflows. -/
theorem swingFits_periods {k : ℕ} (hk : fitsWord k = true) : SwingFits p (k * p) := by
  have hp0 := period_pos hp
  have hkp := inWords_periods hp hk
  have hfloor : ⌊(k * p : ℚ) / p⌋ = k := by
    rw [mul_div_cancel_right₀ _ hp0.ne']
    exact_mod_cast Int.floor_natCast k
  have hrest : periodRest p (k * p) = 0 := by
    rw [periodRest, hfloor]
    push_cast
    ring
  have hswing := swingQ_periods hp0 k
  push_cast at hswing
  refine ⟨?_, ?_, ?_, fun _ => ?_, fun h => absurd h (by rw [hrest]; linarith), by rwa [hswing]⟩
  · rw [mul_div_cancel_right₀ _ hp0.ne']
    exact inWords_natCast hk
  · rw [hfloor, show p * ((k : ℤ) : ℚ) = k * p by push_cast; ring]
    exact hkp
  · rw [hrest]
    exact inWords_zero
  · rw [hrest, zero_mul]
    exact inWords_zero

end Periods

theorem Eaten.swing_note {α : Type} (P : Frac) {out : Eaten α} {i : ℕ} {n n' : MusicNote α}
    (hn : out.notes[i]? = some n) (hn' : (out.swing P).notes[i]? = some n') :
    n'.startPos = warp P n.startPos ∧
      n'.length = warp P (n.startPos + n.length) - warp P n.startPos := by
  simp only [Eaten.swing, Array.getElem?_map, hn, Option.map_some, Option.some.injEq] at hn'
  subst hn'
  exact ⟨rfl, rfl⟩

/-- **The swing warp is strictly increasing and keeps whole periods.** Take the period `P` of a
swing meter, standing for `p`: a quarter for eighths, half a quarter for sixteenths. For
positions of at least zero that stand for rationals and whose swing has no step that overflows,
a position before another is swung before it; a position moved on by `k` whole periods is
swung to its own swing moved on by as much; and a period start is swung to itself. So a swung
note starts at the swing of its start, lasts, when it had a length, a positive time, and ends
at the swing of its end, which is where the next note, starting at its end, starts. -/
theorem warp_swing_laws (s : Swing) (P : Frac) (p : ℚ) (hP : s.period = some P)
    (hp : P.value? = some p) :
    (∀ (x y : Frac) (q q' : ℚ), StandsFor x q → StandsFor y q' → 0 ≤ q → x < y →
      SwingFits p q → SwingFits p q' → warp P x < warp P y) ∧
    (∀ (x : Frac) (q : ℚ) (k : ℕ), StandsFor x q → 0 ≤ q → fitsWord k = true →
      (x + ofInt k * P).isFinite = true → SwingFits p q → SwingFits p (q + k * p) →
      Frac.compare (warp P (x + ofInt k * P)) (warp P x + ofInt k * P) = .eq) ∧
    (∀ k : ℕ, fitsWord k = true → Frac.compare (warp P (ofInt k * P)) (ofInt k * P) = .eq) ∧
    (∀ (α : Type) (out : Eaten α) (i : ℕ) (n n' : MusicNote α), out.notes[i]? = some n →
      (out.swing P).notes[i]? = some n' →
      n'.startPos = warp P n.startPos ∧
      ∀ a b : ℚ, StandsFor n.startPos a → StandsFor (n.startPos + n.length) b → 0 ≤ a → a < b →
        SwingFits p a → SwingFits p b → InWords (swingQ p b - swingQ p a) →
        StandsFor n'.length (swingQ p b - swingQ p a) ∧ 0 < swingQ p b - swingQ p a ∧
        Frac.compare (n'.startPos + n'.length) (warp P (n.startPos + n.length)) = .eq) := by
  obtain ⟨hPp, hper⟩ := Swing.period_standsFor hP hp
  have hp0 := period_pos hper
  -- the swing of a position standing for `q ≥ 0` stands for the exact swing
  have hwarp : ∀ {x : Frac} {q : ℚ}, StandsFor x q → 0 ≤ q → SwingFits p q →
      StandsFor (warp P x) (swingQ p q) := fun hx hq hfit =>
    warp_standsFor hPp hp0 (inWords_half_period hper) (inWords_twoThirds_period hper) hx hq hfit
  refine ⟨?_, ?_, ?_, ?_⟩
  · -- order
    intro x y q q' hx hy hq hlt hfx hfy
    have hqq := (hx.lt_iff hy).1 hlt
    exact ((hwarp hx hq hfx).lt_iff (hwarp hy (by linarith) hfy)).2 (swingQ_lt hp0 hqq)
  · -- whole periods
    intro x q k hx hq hk hfin hfx hfk
    have hkP := standsFor_periods hper hPp hk
    -- the position moved on is finite, so its sum is exact
    have hsum : StandsFor (x + ofInt k * P) (q + k * p) := by
      obtain ⟨hexact, hr, hpr⟩ := add_exact_step hx.2.2 hkP.2.2 hx.1 hkP.1 hx.2.1 hkP.2.1
      unfold Exact at hexact
      split at hexact
      · exact ⟨hr, hpr, hexact⟩
      · rw [hexact] at hfin
        cases hfin
    have hshift : swingQ p (q + k * p) = swingQ p q + k * p := by
      exact_mod_cast swingQ_add_periods hp0 q k
    have hleft := hwarp hsum (by positivity) hfk
    have hright := (hwarp hx hq hfx).add hkP (hshift ▸ hfk.2.2.2.2.2)
    rw [hshift] at hleft
    exact hleft.compare_eq hright
  · -- period starts
    intro k hk
    have hkP := standsFor_periods hper hPp hk
    have hstart := hwarp hkP (by positivity) (swingFits_periods hper hk)
    rw [show swingQ p (k * p) = k * p by exact_mod_cast swingQ_periods hp0 k] at hstart
    exact hstart.compare_eq hkP
  · -- notes
    intro α out i n n' hn hn'
    obtain ⟨hstart, hlength⟩ := Eaten.swing_note P hn hn'
    refine ⟨hstart, fun a b ha hb ha0 hab hfa hfb hw => ?_⟩
    have hwa := hwarp ha ha0 hfa
    have hwb := hwarp hb (by linarith) hfb
    have hlen : StandsFor n'.length (swingQ p b - swingQ p a) := hlength ▸ hwb.sub hwa hw
    -- the swung note ends where the swing of its end is
    have hend := (hstart ▸ hwa).add hlen (by rw [add_sub_cancel]; exact hfb.2.2.2.2.2)
    rw [add_sub_cancel] at hend
    exact ⟨hlen, sub_pos.2 (swingQ_lt hp0 hab), hend.compare_eq hwb⟩

/-- Swung eighths: the period is a quarter; a half is swung before three quarters, and the
second quarter's start stays in place. -/
theorem warp_swing_laws_eighths :
    Swing.eighth.period = some 1 ∧ (1 : Frac).value? = some 1 ∧
      warp 1 (make 1 2) < warp 1 (make 3 4) ∧ Frac.compare (warp 1 (ofInt 1 * 1)) (ofInt 1 * 1) = .eq := by
  obtain ⟨horder, -, hstart, -⟩ := warp_swing_laws .eighth 1 1 rfl standsFor_one.2.2
  have hthree : StandsFor (make 3 4) (3 / 4) := by
    exact_mod_cast standsFor_make_natCast (x := 3) (y := 4) three_pos four_pos (by norm_num)
      (by norm_num)
  -- the parts of every step of the two swings
  have h12 : InWords (1 / 2) := by
    exact_mod_cast inWords_natCast_div (x := 1) (y := 2) one_pos two_pos (by norm_num) (by norm_num)
  have h23 : InWords (2 / 3) := by
    exact_mod_cast inWords_natCast_div (x := 2) (y := 3) two_pos three_pos (by norm_num)
      (by norm_num)
  have h34 : InWords (3 / 4) := by
    exact_mod_cast inWords_natCast_div (x := 3) (y := 4) three_pos four_pos (by norm_num)
      (by norm_num)
  have h14 : InWords (1 / 4) := by
    exact_mod_cast inWords_natCast_div (x := 1) (y := 4) one_pos four_pos (by norm_num) (by norm_num)
  have h16 : InWords (1 / 6) := by
    exact_mod_cast inWords_natCast_div (x := 1) (y := 6) one_pos (by norm_num) (by norm_num)
      (by norm_num)
  have h56 : InWords (5 / 6) := by
    exact_mod_cast inWords_natCast_div (x := 5) (y := 6) (by norm_num) (by norm_num) (by norm_num)
      (by norm_num)
  refine ⟨rfl, standsFor_one.2.2, horder _ _ _ _ standsFor_half hthree (by norm_num)
    ((standsFor_half.lt_iff hthree).2 (by norm_num)) ?_ ?_, hstart 1 (by decide)⟩
  · unfold SwingFits
    norm_num [periodRest, swingQ, warpWithin, h12, h23]
  · unfold SwingFits
    norm_num [periodRest, swingQ, warpWithin, h34, h14, h16, h56]

end Jianpu
