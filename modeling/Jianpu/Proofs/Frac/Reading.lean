import Mathlib
import Jianpu.Proofs.Frac.Exactness
/-!
# What a fraction reads back as

`Frac.make x y` keeps `x / y` in lowest terms with its sign apart. `numer` and `denom` read the
parts back as signed 64-bit words, `Frac.toString` writes them as `"numer/denom"`, and
`Frac.parse` reads that text again.

* `make_eq_num_den`     `make x y` is the lowest-terms form of the rational `x / y`;
* `readable_make_iff`   its parts read back as they are, except at `y = i64::MIN` with `x` odd
  and at `x = i64::MIN` with `y` negative and odd: there a part of magnitude `2^63` reads back as
  `-2^63`;
* `parse_toString`      the text of every fraction reads as `make` of its two words;
* `compare_make_parts`  which is the fraction itself when its parts read back.

The digits are read by `Decimal.readIntIn_toString`: an integer's decimal text reads back as it.

Main statement: `make_and_text_read_back`.
-/

namespace Jianpu

namespace Decimal

theorem digitValue_append_digit (cs : List Char) (c : Char) :
    digitValue (cs ++ [c]) = (digitValue cs).bind fun n =>
      if c.isDigit then some (n * 10 + (c.toNat - '0'.toNat)) else none := by
  simp only [digitValue, List.foldl_append, List.foldl_cons, List.foldl_nil]

theorem digitValue_toDigits (n : Nat) : digitValue (Nat.toDigits 10 n) = some n := by
  induction n using Nat.strong_induction_on with
  | _ n ih =>
    rw [Nat.toDigits_eq_if (by omega)]
    split
    · rename_i h
      simp [digitValue, h, Nat.toNat_digitChar_of_lt_ten h]
    · rename_i h
      have hd : n % 10 < 10 := Nat.mod_lt _ (by omega)
      rw [digitValue_append_digit, ih (n / 10) (by omega)]
      simp [hd, Nat.toNat_digitChar_of_lt_ten hd]
      omega

theorem toDigits_cons (n : Nat) : ∃ c cs, Nat.toDigits 10 n = c :: cs ∧ c.isDigit = true := by
  cases h : Nat.toDigits 10 n with
  | nil => exact absurd h Nat.toDigits_ne_nil
  | cons c cs =>
    exact ⟨c, cs, rfl, Nat.isDigit_of_mem_toDigits (by omega) (by omega) (h ▸ List.mem_cons_self)⟩

theorem readIntIn_digits {lo hi : Int} {n : Nat} (h : lo ≤ n ∧ n ≤ hi) :
    readIntIn lo hi (String.ofList (Nat.toDigits 10 n)) = some n := by
  obtain ⟨c, cs, hcs, hc⟩ := toDigits_cons n
  -- a digit is no sign
  have hplus : c ≠ '+' := by rintro rfl; simp at hc
  have hminus : c ≠ '-' := by rintro rfl; simp at hc
  have hv : digitValue (c :: cs) = some n := hcs ▸ digitValue_toDigits n
  unfold readIntIn
  rw [String.toList_ofList, hcs]
  simp [hplus, hminus, hv, h]

/-- An integer's decimal text reads back as it, in any range that holds it and negative
numbers. -/
theorem readIntIn_toString {lo hi x : Int} (hlo : lo < 0) (h : lo ≤ x ∧ x ≤ hi) :
    readIntIn lo hi (toString x) = some x := by
  cases x with
  | ofNat m => exact readIntIn_digits h
  | negSucc m =>
    have hminus : "-".toList = ['-'] := rfl
    show readIntIn lo hi ("-" ++ Nat.repr (m + 1)) = _
    unfold readIntIn
    obtain ⟨c, cs, hcs, hc⟩ := toDigits_cons (m + 1)
    have hv : digitValue (c :: cs) = some (m + 1) := hcs ▸ digitValue_toDigits (m + 1)
    simp only [String.toList_append, Nat.toList_repr, hminus, hcs]
    simp [hlo, hv]
    rw [Int.negSucc_eq] at h ⊢
    omega

end Decimal

namespace Text

theorem dropBlanks_of_forall {cs : List Char} (h : ∀ c ∈ cs, isBlank c = false) :
    dropBlanks cs = cs := by
  cases cs with
  | nil => rfl
  | cons c cs => exact List.dropWhile_cons_of_neg (by simp [h c List.mem_cons_self])

theorem trimChars_of_forall {cs : List Char} (h : ∀ c ∈ cs, isBlank c = false) :
    trimChars cs = cs := by
  have hr : ∀ c ∈ cs.reverse, isBlank c = false := fun c hc => h c (List.mem_reverse.1 hc)
  rw [trimChars, trimStartChars, dropBlanks_of_forall h, trimEndChars, dropBlanks_of_forall hr,
    List.reverse_reverse]

end Text

namespace Frac

/-! ## The text of a fraction -/

theorem fitsWord_word (x : Int) : fitsWord (word x) = true := by
  have h63 : Int.pow 2 63 = 9223372036854775808 := rfl
  have h64 : Int.pow 2 64 = 18446744073709551616 := rfl
  rw [fitsWord_iff]
  simp only [word, h63, h64]
  omega

theorem fitsWord_numer (f : Frac) : fitsWord f.numer = true := by
  cases f with
  | ratio s n d => exact fitsWord_word _
  | infinite s => cases s <;> decide
  | indeterminate => decide

theorem fitsWord_denom (f : Frac) : fitsWord f.denom = true := by
  cases f with
  | ratio s n d => exact fitsWord_word _
  | infinite _ | indeterminate =>
    show fitsWord 0 = true
    decide

theorem readI64_toString {x : Int} (h : fitsWord x = true) :
    Decimal.readI64 (toString x) = some x := by
  rw [fitsWord_iff] at h
  exact Decimal.readIntIn_toString (by decide) h

theorem toList_toString (x : Int) :
    (toString x).toList = (if x < 0 then ['-'] else []) ++ Nat.toDigits 10 x.natAbs := by
  cases x with
  | ofNat m => simp [toString, Int.repr]
  | negSucc m =>
    have hminus : "-".toList = ['-'] := rfl
    simp [toString, Int.repr, hminus, Int.negSucc_lt_zero]

/-- An integer's text is a sign and digits: no blank, no slash. -/
theorem not_blank_of_mem_toString {x : Int} {c : Char} (h : c ∈ (toString x).toList) :
    Text.isBlank c = false ∧ c ≠ '/' := by
  rw [toList_toString] at h
  rcases List.mem_append.1 h with h | h
  · have hc : c = '-' := by split at h <;> simp_all
    subst hc
    decide
  · have hd := Nat.isDigit_of_mem_toDigits (by omega) (by omega) h
    have hn : 48 ≤ c.toNat ∧ c.toNat ≤ 57 := by
      simp only [Char.isDigit, Bool.and_eq_true, decide_eq_true_eq] at hd
      exact ⟨UInt32.le_iff_toNat_le.1 hd.1, UInt32.le_iff_toNat_le.1 hd.2⟩
    refine ⟨?_, ?_⟩
    · simp only [Text.isBlank]
      simp
      omega
    · rintro rfl
      simp at hn

theorem span_at_slash {a b : List Char} (h : ∀ c ∈ a, c ≠ '/') :
    (a ++ '/' :: b).span (· != '/') = (a, '/' :: b) := by
  have ha : ∀ c ∈ a, (c != '/') = true := fun c hc => by simpa using h c hc
  rw [List.span_eq_takeWhile_dropWhile, List.takeWhile_append_of_pos ha,
    List.dropWhile_append_of_pos ha]
  simp

/-- **The text of every fraction reads back** as `make` of the two words it was written from,
the sentinels' included. -/
theorem parse_toString (f : Frac) : parse f.toString = some (make f.numer f.denom) := by
  have hs : f.toString = toString f.numer ++ "/" ++ toString f.denom := rfl
  have hslash : "/".toList = ['/'] := rfl
  have hn := fun c (hc : c ∈ (toString f.numer).toList) => not_blank_of_mem_toString hc
  have hd := fun c (hc : c ∈ (toString f.denom).toList) => not_blank_of_mem_toString hc
  have hall : ∀ c ∈ (toString f.numer).toList ++ '/' :: (toString f.denom).toList,
      Text.isBlank c = false := by
    intro c hc
    rcases List.mem_append.1 hc with hc | hc
    · exact (hn c hc).1
    · rcases List.mem_cons.1 hc with rfl | hc
      · decide
      · exact (hd c hc).1
  unfold parse
  rw [hs, String.toList_append, String.toList_append, hslash, List.append_assoc,
    List.singleton_append, Text.trimChars_of_forall hall]
  dsimp only
  rw [span_at_slash fun c hc => (hn c hc).2]
  simp only [Text.trimChars_of_forall fun c hc => (hn c hc).1,
    Text.trimChars_of_forall fun c hc => (hd c hc).1, String.ofList_toList,
    readI64_toString (fitsWord_numer f), readI64_toString (fitsWord_denom f)]
  rfl

/-! ## `make` is the lowest-terms form -/

theorem num_mul_eq {x y : Int} (hy : y ≠ 0) :
    ((x : ℚ) / y).num * y = x * ((x : ℚ) / y).den := by
  have hq := Rat.num_div_den ((x : ℚ) / y)
  have hden : (((x : ℚ) / y).den : ℚ) ≠ 0 := by exact_mod_cast ((x : ℚ) / y).den_nz
  have hy' : (y : ℚ) ≠ 0 := by exact_mod_cast hy
  rw [div_eq_div_iff hden hy'] at hq
  exact_mod_cast hq

theorem num_neg_iff {q : ℚ} : q.num < 0 ↔ q < 0 := by
  rw [← not_le, Rat.num_nonneg, not_le]

/-- `make x y` stores the lowest-terms form of `x / y`: the magnitudes divided by their gcd, and
the sign of the quotient. -/
theorem make_eq_num_den {x y : Int} (hy : y ≠ 0) :
    make x y = make ((x : ℚ) / y).num ((x : ℚ) / y).den := by
  have hsign : decide (((x : ℚ) / y).num < 0) =
      ((decide (x < 0) != decide (y < 0)) && x != 0) := by
    rw [Bool.eq_iff_iff, decide_eq_true_iff, num_neg_iff, div_neg_iff]
    simp only [Int.cast_pos, Int.cast_lt_zero, Bool.and_eq_true, bne_iff_ne, ne_eq,
      decide_eq_decide]
    omega
  have hq : (x : ℚ) / y = Rat.divInt x y := (Rat.divInt_eq_div x y).symm
  have hg : Int.gcd y x = Nat.gcd x.natAbs y.natAbs := Nat.gcd_comm _ _
  have hdvd : ((Nat.gcd x.natAbs y.natAbs : Nat) : Int) ∣ y.sign * x :=
    Dvd.dvd.mul_left (Int.ofNat_dvd_left.2 (Nat.gcd_dvd_left _ _)) _
  rw [make_num_den, hsign, hq, Rat.num_divInt, Rat.den_divInt, if_neg hy, hg]
  unfold make
  rw [if_neg hy, Int.natAbs_ediv_of_dvd hdvd, Int.natAbs_mul, Int.natAbs_sign_of_ne_zero hy,
    one_mul, Int.natAbs_natCast]

/-! ## The parts of a lowest-terms form, read back -/

theorem zero_le_ratio_iff {s : Bool} {n d : Nat} : zero ≤ ratio s n d ↔ 0 ≤ signedNum s n := by
  show Ord.compare (signedNum false 0 * (d : Int)) (signedNum s n * ((1 : Nat) : Int)) ≠ .gt ↔ _
  rw [Ne, compare_gt_iff_gt]
  simp [signedNum]

theorem zero_le_abs_of_readable {s : Bool} {n d : Nat} (h : Readable (ratio s n d)) :
    zero ≤ (ratio s n d).abs := by
  unfold abs isNegative
  rw [numer_of_readable h]
  split
  · -- a negative numerator is negated, which leaves its magnitude
    rename_i hs
    have hs : s = true ∧ n ≠ 0 := by
      cases s <;> simp [signedNum] at hs ⊢ <;> omega
    obtain ⟨rfl, hn⟩ := hs
    show zero ≤ ratio (!true && n != 0) n d
    simp [zero_le_ratio_iff, signedNum]
  · rename_i hs
    rw [zero_le_ratio_iff]
    simpa using hs

section LowestTerms

variable (q : ℚ)

theorem readable_num_den_iff :
    Readable (make q.num q.den) ↔ fitsWord q.num = true ∧ (q.den : Int) ≤ Decimal.i64Max := by
  rw [make_num_den, Readable, signedNum_natAbs]

variable {q}

theorem numer_num_den (h : Readable (make q.num q.den)) : (make q.num q.den).numer = q.num := by
  rw [make_num_den] at h ⊢
  rw [numer_of_readable h, signedNum_natAbs]

theorem denom_num_den (h : Readable (make q.num q.den)) : (make q.num q.den).denom = q.den := by
  rw [make_num_den] at h ⊢
  exact denom_of_readable h

theorem abs_num_den_nonneg (h : Readable (make q.num q.den)) : zero ≤ (make q.num q.den).abs := by
  rw [make_num_den] at h ⊢
  exact zero_le_abs_of_readable h

theorem floor_num_den (h : Readable (make q.num q.den)) : (make q.num q.den).floor = ⌊q⌋ := by
  rw [floor, numer_num_den h, denom_num_den h, Rat.floor_def', make_num_den]
  rfl

theorem isNegative_num_den (h : Readable (make q.num q.den)) :
    (make q.num q.den).isNegative = true ↔ q < 0 := by
  rw [isNegative, numer_num_den h, decide_eq_true_iff, num_neg_iff]

end LowestTerms

/-! ## Where the parts do not read back -/

/-- A magnitude of at most `2^63` keeps the value `2^63` after division by its gcd with `b`
exactly when it is `2^63` and `b` is odd, so that nothing is divided out. -/
theorem div_gcd_eq_bound {a b : Nat} (ha : a ≤ 9223372036854775808) :
    a / Nat.gcd a b = 9223372036854775808 ↔ a = 9223372036854775808 ∧ Odd b := by
  have hpow : (9223372036854775808 : Nat) = 2 ^ 63 := by norm_num
  constructor
  · intro h
    have hg : Nat.gcd a b = 1 := by
      rcases Nat.lt_or_ge (Nat.gcd a b) 2 with hlt | hge
      · have hne : Nat.gcd a b ≠ 0 := by
          intro h0
          rw [h0, Nat.div_zero] at h
          omega
        omega
      · have hle : a / Nat.gcd a b ≤ a / 2 := Nat.div_le_div_left hge (by omega)
        omega
    rw [hg, Nat.div_one] at h
    subst h
    rw [hpow, ← Nat.Coprime, Nat.coprime_pow_left_iff (by omega), Nat.coprime_two_left] at hg
    exact ⟨rfl, hg⟩
  · rintro ⟨rfl, hb⟩
    have hg : Nat.Coprime (2 ^ 63) b := (Nat.coprime_pow_left_iff (by omega) 2 b).2
      (Nat.coprime_two_left.2 hb)
    rw [hpow, hg.gcd_eq_one, Nat.div_one]

/-- The parts of `make x y` read back as they are except in two cases, where a part has the
magnitude `2^63`: the denominator of `x / i64::MIN` for odd `x`, and the numerator of
`i64::MIN / y` for negative odd `y`. -/
theorem readable_make_iff {x y : Int} (hx : fitsWord x = true) (hy : fitsWord y = true)
    (hy0 : y ≠ 0) :
    Readable (make x y) ↔
      ¬ (y = Decimal.i64Min ∧ Odd x) ∧ ¬ (x = Decimal.i64Min ∧ y < 0 ∧ Odd y) := by
  -- the parts `make` stores are the magnitudes divided by their gcd
  have hparts := @make_eq_num_den x y hy0
  rw [make_num_den] at hparts
  unfold make at hparts
  rw [if_neg hy0] at hparts
  obtain ⟨-, hnum, hden⟩ := ratio.inj hparts
  rw [make_eq_num_den hy0, readable_num_den_iff]
  have hpos : 0 < ((x : ℚ) / y).num ↔ x < 0 ∧ y < 0 ∨ 0 < x ∧ 0 < y := by
    rw [Rat.num_pos, div_pos_iff]
    simp only [Int.cast_pos, Int.cast_lt_zero]
    tauto
  rw [fitsWord_iff] at hx hy ⊢
  have hxa := @div_gcd_eq_bound x.natAbs y.natAbs (by omega)
  have hya := @div_gcd_eq_bound y.natAbs x.natAbs (by omega)
  have hxle : x.natAbs / Nat.gcd x.natAbs y.natAbs ≤ x.natAbs := Nat.div_le_self _ _
  have hyle : y.natAbs / Nat.gcd x.natAbs y.natAbs ≤ y.natAbs := Nat.div_le_self _ _
  rw [Nat.gcd_comm] at hya
  rw [hnum] at hxa hxle
  rw [hden] at hya hyle
  rw [← @Int.natAbs_odd x, ← @Int.natAbs_odd y, Nat.odd_iff, Nat.odd_iff] at *
  simp only [Decimal.i64Min, Decimal.i64Max]
  omega

theorem compare_make_parts {f : Frac} (hp : Proper f) (hr : Readable f) :
    compare (make f.numer f.denom) f = .eq := by
  cases f with
  | ratio s n d =>
    have hd : 0 < d := hp
    rw [numer_of_readable hr, denom_of_readable hr, make_eq_num_den (by omega), make_num_den]
    show Ord.compare (signedNum _ _ * (d : Int)) (signedNum s n * _) = .eq
    rw [signedNum_natAbs, compare_eq_iff_eq]
    exact num_mul_eq (by omega)
  | infinite s => cases s <;> rfl
  | indeterminate => rfl

/-! ## The statement -/

/-- **A fraction made of two words, and the text of every fraction, read back.** For words `x`
and `y ≠ 0`, `make x y` is finite and stands for `x / y`. Its parts read back as they are except
at `y = i64::MIN` with `x` odd and at `x = i64::MIN` with `y` negative and odd; where they do, the
denominator is positive, the parts are coprime, `numer * y = x * denom`, the fraction reads as
negative exactly when `x / y` is, its absolute value is not below zero and its floor is that of
`x / y`. The text of every fraction reads back as `make` of its two words, which is the fraction
itself when it is finite with a positive denominator, or a sentinel, and its parts read back. -/
theorem make_and_text_read_back (x y : Int) (f : Frac) :
    (fitsWord x = true → fitsWord y = true → y ≠ 0 →
      (make x y).isFinite = true ∧ (make x y).value? = some ((x : ℚ) / y) ∧
      (Readable (make x y) ↔
        ¬ (y = Decimal.i64Min ∧ Odd x) ∧ ¬ (x = Decimal.i64Min ∧ y < 0 ∧ Odd y)) ∧
      (Readable (make x y) →
        0 < (make x y).denom ∧ Int.gcd (make x y).numer (make x y).denom = 1 ∧
        (make x y).numer * y = x * (make x y).denom ∧
        ((make x y).isNegative = true ↔ (x : ℚ) / y < 0) ∧ zero ≤ (make x y).abs ∧
        (make x y).floor = ⌊(x : ℚ) / y⌋)) ∧
    parse f.toString = some (make f.numer f.denom) ∧
      (Proper f → Readable f → compare (make f.numer f.denom) f = .eq) := by
  refine ⟨fun hx hy hy0 => ?_, parse_toString f, compare_make_parts⟩
  refine ⟨?_, ?_, readable_make_iff hx hy hy0, fun hr => ?_⟩
  · rw [make_eq_num_den hy0, make_num_den]
    rfl
  · rw [make_eq_num_den hy0]
    exact value?_make_num_den _
  · rw [make_eq_num_den hy0] at hr ⊢
    refine ⟨?_, ?_, ?_, isNegative_num_den hr, abs_num_den_nonneg hr, floor_num_den hr⟩
    · rw [denom_num_den hr]
      exact_mod_cast ((x : ℚ) / y).den_pos
    · rw [numer_num_den hr, denom_num_den hr]
      simpa [Int.gcd] using ((x : ℚ) / y).reduced
    · rw [numer_num_den hr, denom_num_den hr]
      exact num_mul_eq hy0

theorem make_and_text_read_back_minus_third :
    fitsWord 3 = true ∧ fitsWord (-9) = true ∧ (-9 : Int) ≠ 0 ∧ Readable (make 3 (-9)) ∧
      (make 3 (-9)).numer * (-9) = 3 * (make 3 (-9)).denom ∧
      (make 3 (-9)).floor = ⌊(3 : ℚ) / (-9 : Int)⌋ ∧ Proper (make 3 (-9)) ∧
      compare (make (make 3 (-9)).numer (make 3 (-9)).denom) (make 3 (-9)) = .eq := by
  have hx : fitsWord 3 = true := by decide
  have hy : fitsWord (-9) = true := by decide
  have hr : Readable (make 3 (-9)) := by decide
  have hp : Proper (make 3 (-9)) := proper_make 3 (-9)
  obtain ⟨hmake, -, hback⟩ := make_and_text_read_back 3 (-9) (make 3 (-9))
  obtain ⟨-, -, -, hparts⟩ := hmake hx hy (by decide)
  obtain ⟨-, -, hcross, -, -, hfloor⟩ := hparts hr
  exact ⟨hx, hy, by decide, hr, hcross, hfloor, hp, hback hp hr⟩

/-- `1 / i64::MIN` stands for `-1/2^63`, but its denominator reads back as `-2^63` and its floor
as `1`, and its text, `-1` over `-2^63`, reads back as `+1/2^63`. -/
theorem wide_denominator_reads_back_negative :
    (make 1 Decimal.i64Min).value? = some (-1 / 2 ^ 63) ∧
      (make 1 Decimal.i64Min).denom = Decimal.i64Min ∧ (make 1 Decimal.i64Min).floor = 1 ∧
      (make 1 Decimal.i64Min).toString = "-1/-9223372036854775808" ∧
      parse (make 1 Decimal.i64Min).toString = some (make (-1) Decimal.i64Min) ∧
      compare (make (-1) Decimal.i64Min) (make 1 Decimal.i64Min) = .gt := by
  refine ⟨by decide +kernel, by decide, by decide, by decide, ?_, by decide⟩
  rw [parse_toString]
  decide

end Frac

end Jianpu
