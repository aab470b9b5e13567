import Mathlib
import Jianpu.Proofs.Frac.Order
import Jianpu.Layout.Line
/-!
# `compare` is a total order

`Frac.compare` is a table of sentinels spliced onto a cross-multiplication of the finite
parts. On proper fractions (a positive denominator, which every `make` and every operation
gives) it is the comparison of `rank`s, and ranks lie in a linear order, so every law of a
total order follows from that one equation. Reflexivity, the swap law, totality and the place
of the sentinels hold of every fraction.

A section's footprints are kept in a table keyed by position (`putFootprint`), where the
footprints of positions that `compare` calls equal are merged. Because the order is lawful,
the keys stay strictly increasing: a position has one entry, and no entry is lost.

* `compare_eq_compare_rank` — `compare` is the comparison of ranks.
* `compare_refl`, `compare_swap`, `le_total'` — laws that hold of every fraction.
* `le_trans'`, `lt_trans'`, `compare_eq_eq_iff` — transitive, and equal exactly when the ranks
  are.
* `putFootprint_sorted`, `keys_subset_putFootprint`, `keys_putFootprint_subset` — the
  footprint table keeps its keys in order, drops none and adds only the new position.
* `compare_total_order` — all of it together.
-/

namespace Jianpu
namespace Frac

/-! ## Laws on every fraction -/

theorem compare_refl (a : Frac) : compare a a = .eq := by
  cases a with
  | ratio s n d =>
    show Ord.compare (signedNum s n * d) (signedNum s n * d) = .eq
    exact compare_eq_iff_eq.2 rfl
  | infinite s => cases s <;> rfl
  | indeterminate => rfl

theorem compare_swap (a b : Frac) : compare b a = (compare a b).swap := by
  rcases a with ⟨s, n, d⟩ | ⟨_ | _⟩ | _ <;> rcases b with ⟨t, m, e⟩ | ⟨_ | _⟩ | _
  case ratio.ratio =>
    show Ord.compare _ _ = (Ord.compare _ _).swap
    exact Std.OrientedOrd.eq_swap
  all_goals rfl

theorem le_total' (a b : Frac) : a ≤ b ∨ b ≤ a := by
  show compare a b ≠ .gt ∨ compare b a ≠ .gt
  rw [compare_swap a b]
  cases compare a b <;> simp

theorem compare_eq_of_le_of_le {a b : Frac} (hab : a ≤ b) (hba : b ≤ a) : compare a b = .eq := by
  change compare a b ≠ .gt at hab
  change compare b a ≠ .gt at hba
  rw [compare_swap a b] at hba
  cases h : compare a b <;> simp_all

theorem indeterminate_lt {a : Frac} (ha : a ≠ indeterminate) : indeterminate < a := by
  cases a with
  | indeterminate => exact absurd rfl ha
  | ratio _ _ _ | infinite _ => rfl

theorem compare_indeterminate_eq_iff (a : Frac) :
    compare a indeterminate = .eq ↔ a = indeterminate := by
  cases a with
  | indeterminate => simp [compare]
  | ratio _ _ _ | infinite _ => simp [compare]

theorem infinities_around {a : Frac} (ha : a.isFinite = true) :
    infinite true < a ∧ a < infinite false := by
  cases a with
  | ratio _ _ _ => exact ⟨rfl, rfl⟩
  | infinite _ | indeterminate => cases ha

/-! ## Laws on proper fractions -/

section Proper

variable {a b c : Frac}

theorem compare_eq_compare_rank (ha : Proper a) (hb : Proper b) :
    compare a b = Ord.compare (rank a) (rank b) := by
  rcases lt_trichotomy (rank a) (rank b) with h | h | h
  · rw [(compare_eq_lt_iff ha hb).2 h, compare_lt_iff_lt.2 h]
  · rw [compare_eq_iff_eq.2 h]
    cases hc : compare a b with
    | lt => exact absurd ((compare_eq_lt_iff ha hb).1 hc) h.not_lt
    | eq => rfl
    | gt => exact absurd ((compare_eq_gt_iff ha hb).1 hc) h.symm.not_lt
  · rw [(compare_eq_gt_iff ha hb).2 h, compare_gt_iff_gt.2 h]

theorem compare_eq_eq_iff (ha : Proper a) (hb : Proper b) :
    compare a b = .eq ↔ rank a = rank b := by
  rw [compare_eq_compare_rank ha hb, compare_eq_iff_eq]

theorem le_trans' (ha : Proper a) (hb : Proper b) (hc : Proper c) (hab : a ≤ b) (hbc : b ≤ c) :
    a ≤ c := by
  rw [le_iff_rank ha hb] at hab
  rw [le_iff_rank hb hc] at hbc
  exact (le_iff_rank ha hc).2 (hab.trans hbc)

theorem lt_trans' (ha : Proper a) (hb : Proper b) (hc : Proper c) (hab : a < b) (hbc : b < c) :
    a < c := by
  rw [lt_iff_rank ha hb] at hab
  rw [lt_iff_rank hb hc] at hbc
  exact (lt_iff_rank ha hc).2 (hab.trans hbc)

theorem compare_of_value? (ha : Proper a) (hb : Proper b) {x y : ℚ} (hx : a.value? = some x)
    (hy : b.value? = some y) : compare a b = Ord.compare x y := by
  rw [compare_eq_compare_rank ha hb, rank_of_value? hx, rank_of_value? hy]
  rcases lt_trichotomy x y with h | rfl | h
  · rw [compare_lt_iff_lt.2 h, compare_lt_iff_lt.2 (by exact_mod_cast h)]
  · rw [compare_eq_iff_eq.2 rfl, compare_eq_iff_eq.2 rfl]
  · rw [compare_gt_iff_gt.2 h, compare_gt_iff_gt.2 (by exact_mod_cast h)]

end Proper

end Frac

/-! ## The footprint table -/

def footprintKeys (m : List (Frac × Footprint)) : List Frac := m.map Prod.fst

@[simp] theorem footprintKeys_nil : footprintKeys [] = [] := rfl

@[simp] theorem footprintKeys_cons (p : Frac) (f : Footprint) (m : List (Frac × Footprint)) :
    footprintKeys ((p, f) :: m) = p :: footprintKeys m := rfl

variable {m : List (Frac × Footprint)} {pos : Frac} {fp : Footprint}

theorem keys_subset_putFootprint (m : List (Frac × Footprint)) (pos : Frac) (fp : Footprint) :
    footprintKeys m ⊆ footprintKeys (putFootprint m pos fp) := by
  induction m with
  | nil => simp
  | cons e rest ih =>
    obtain ⟨p, f⟩ := e
    unfold putFootprint
    split
    · exact List.subset_cons_of_subset _ (List.Subset.refl _)
    · exact List.Subset.refl _
    · simpa using List.subset_cons_of_subset p ih

/-- The only position a table can gain is the one put. -/
theorem keys_putFootprint_subset (m : List (Frac × Footprint)) (pos : Frac) (fp : Footprint) :
    footprintKeys (putFootprint m pos fp) ⊆ pos :: footprintKeys m := by
  induction m with
  | nil => simp [putFootprint]
  | cons e rest ih =>
    obtain ⟨p, f⟩ := e
    unfold putFootprint
    split
    · exact List.Subset.refl _
    · exact List.subset_cons_self _ _
    · intro k hk
      simp only [footprintKeys_cons, List.mem_cons] at hk ⊢
      rcases hk with rfl | hk
      · exact .inr (.inl rfl)
      · rcases List.mem_cons.1 (ih hk) with rfl | hk
        · exact .inl rfl
        · exact .inr (.inr hk)

theorem exists_key_putFootprint (m : List (Frac × Footprint)) (pos : Frac) (fp : Footprint) :
    ∃ k ∈ footprintKeys (putFootprint m pos fp), Frac.compare pos k = .eq := by
  induction m with
  | nil => exact ⟨pos, by simp [putFootprint], Frac.compare_refl pos⟩
  | cons e rest ih =>
    obtain ⟨p, f⟩ := e
    unfold putFootprint
    split
    · exact ⟨pos, List.mem_cons_self, Frac.compare_refl pos⟩
    · rename_i heq
      exact ⟨p, List.mem_cons_self, heq⟩
    · obtain ⟨k, hk, heq⟩ := ih
      exact ⟨k, List.mem_cons_of_mem _ hk, heq⟩

/-- Putting a proper position into a table of proper positions in strictly increasing order
keeps them strictly increasing. -/
theorem putFootprint_sorted (hm : ∀ k ∈ footprintKeys m, Frac.Proper k) (hpos : Frac.Proper pos)
    (hs : (footprintKeys m).Pairwise (· < ·)) :
    (footprintKeys (putFootprint m pos fp)).Pairwise (· < ·) := by
  induction m with
  | nil => simp [putFootprint]
  | cons e rest ih =>
    obtain ⟨p, f⟩ := e
    simp only [footprintKeys_cons, List.pairwise_cons, List.mem_cons, forall_eq_or_imp] at hs hm
    unfold putFootprint
    split
    · -- the new position goes first: below `p`, hence below every later key
      rename_i hlt
      refine List.pairwise_cons.2 ⟨?_, List.pairwise_cons.2 hs⟩
      intro k hk
      rcases List.mem_cons.1 hk with rfl | hk
      · exact hlt
      · exact Frac.lt_trans' hpos hm.1 (hm.2 k hk) hlt (hs.1 k hk)
    · exact List.pairwise_cons.2 hs
    · -- `p` stays first: below the position put and below the rest
      rename_i hgt
      refine List.pairwise_cons.2 ⟨fun k hk => ?_, ih hm.2 hs.2⟩
      rcases List.mem_cons.1 (keys_putFootprint_subset rest pos fp hk) with rfl | hk
      · show Frac.compare p k = .lt
        rw [Frac.compare_swap k p, hgt]
        rfl
      · exact hs.1 k hk

/-- `compare` is a lawful total order on proper fractions: reflexive, oriented, transitive,
total, and antisymmetric up to its own equality, which is equality of rank. The indeterminate
value lies below every other fraction and equals itself alone; finite fractions compare as the
rationals they stand for, between `-∞` and `+∞`. So `Frac.max` takes the larger, and a
footprint table keyed by position keeps its keys strictly increasing, drops none, gains only
the position put and has an entry for it. -/
theorem Frac.compare_total_order (a b c : Frac) (ha : Frac.Proper a) (hb : Frac.Proper b)
    (hc : Frac.Proper c) :
    Frac.compare a a = .eq ∧ Frac.compare b a = (Frac.compare a b).swap ∧
    (a ≤ b → b ≤ c → a ≤ c) ∧ (a < b → b < c → a < c) ∧ (a ≤ b ∨ b ≤ a) ∧
    (a ≤ b → b ≤ a → Frac.compare a b = .eq) ∧
    (Frac.compare a b = .eq ↔ a.rank = b.rank) ∧
    (a ≠ .indeterminate → .indeterminate < a) ∧
    (Frac.compare a .indeterminate = .eq ↔ a = .indeterminate) ∧
    (∀ x y : ℚ, a.value? = some x → b.value? = some y → Frac.compare a b = Ord.compare x y) ∧
    (a.isFinite = true → .infinite true < a ∧ a < .infinite false) ∧
    (Frac.max a b).rank = Max.max a.rank b.rank ∧
    ∀ (m : List (Frac × Footprint)) (fp : Footprint), (∀ k ∈ footprintKeys m, Frac.Proper k) →
      (footprintKeys m).Pairwise (· < ·) →
      (footprintKeys (putFootprint m a fp)).Pairwise (· < ·) ∧
      footprintKeys m ⊆ footprintKeys (putFootprint m a fp) ∧
      footprintKeys (putFootprint m a fp) ⊆ a :: footprintKeys m ∧
      ∃ k ∈ footprintKeys (putFootprint m a fp), Frac.compare a k = .eq :=
  ⟨Frac.compare_refl a, Frac.compare_swap a b, Frac.le_trans' ha hb hc,
    Frac.lt_trans' ha hb hc, Frac.le_total' a b, Frac.compare_eq_of_le_of_le,
    Frac.compare_eq_eq_iff ha hb, Frac.indeterminate_lt, Frac.compare_indeterminate_eq_iff a,
    fun _ _ hx hy => Frac.compare_of_value? ha hb hx hy, Frac.infinities_around,
    Frac.rank_max ha hb, fun m fp hm hs => ⟨putFootprint_sorted hm ha hs,
      keys_subset_putFootprint m a fp, keys_putFootprint_subset m a fp,
      exists_key_putFootprint m a fp⟩⟩

/-- A half, two thirds and `+∞` are proper, and the half lies below both, compared as the
rationals where both are finite. -/
theorem Frac.compare_total_order_half :
    Frac.Proper (Frac.make 1 2) ∧ Frac.Proper (Frac.make 2 3) ∧ Frac.Proper (.infinite false) ∧
      (Frac.make 1 2 < Frac.make 2 3 → Frac.make 2 3 < .infinite false →
        Frac.make 1 2 < .infinite false) ∧
      Frac.compare (Frac.make 1 2) (Frac.make 2 3) = Ord.compare (1 / 2 : ℚ) (2 / 3) := by
  obtain ⟨-, -, -, hlt, -, -, -, -, -, hvalue, -⟩ :=
    Frac.compare_total_order (Frac.make 1 2) (Frac.make 2 3) (.infinite false)
      (Frac.proper_make 1 2) (Frac.proper_make 2 3) trivial
  exact ⟨Frac.proper_make 1 2, Frac.proper_make 2 3, trivial, hlt,
    hvalue _ _ (by decide +kernel) (by decide +kernel)⟩

end Jianpu
