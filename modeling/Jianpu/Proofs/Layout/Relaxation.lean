import Mathlib
import Jianpu.Layout.Space
/-!
# Relaxation stops, and positions stand at the running sums of the gaps

`relax` repeats `relaxRound` until a round settles, with room for one round more than there
are gaps. That room is always enough, whatever the numbers are, `NaN` and infinities
included: the comparisons of a round only choose which free gaps fail, and a round that does
not settle marks at least one free gap rigid, so the free gaps run out. A round with no free
gap finds none failing, and settles.

A section then gets one gap more than it has positions, and each position stands at the sum
of the gaps up to it.

* `Stiffer` — a set of rigid gaps grown by at least one, with none lost.
* `relaxRound_settles_or_stiffens` — every round settles or marks a free gap rigid.
* `Relaxes` — the rounds from a set of rigid gaps settle, on given shares, in a given round.
* `relaxes_within` — from `c` free gaps, one of the first `c + 1` rounds settles.
* `Relaxes.relaxWith_eq` — with fuel for those rounds, the loop answers what they settle on.
* `relax_relaxes`, `relax_length` — `relax` settles within one round more than there are
  gaps, on one share a gap.
* `dispatchCompute_gaps_length`, `dispatchCompute_offsets` — one gap more than positions;
  the offsets are the running sums of the gaps.
* `relax_stops_and_offsets_add_up` — all of it.
-/

namespace Jianpu

/-! ## Rigid sets that grow -/

def Stiffer (rigid rigid' : List Bool) : Prop :=
  List.Forall₂ (fun g g' => g = true → g' = true) rigid rigid' ∧ rigid ≠ rigid'

/-- A stiffer set has fewer free gaps. -/
theorem Stiffer.count_lt {rigid rigid' : List Bool} (h : Stiffer rigid rigid') :
    rigid'.count false < rigid.count false := by
  obtain ⟨hkeep, hne⟩ := h
  induction hkeep with
  | nil => exact absurd rfl hne
  | @cons g g' l l' hg hrest ih =>
    by_cases hl : l = l'
    · -- the heads differ: a free gap turned rigid
      subst hl
      have hgg : g = false ∧ g' = true := by
        cases g <;> cases g' <;> simp_all
      obtain ⟨rfl, rfl⟩ := hgg
      simp
    · have hlt := ih hl
      cases g <;> cases g' <;> simp_all
      omega

theorem Stiffer.length_eq {rigid rigid' : List Bool} (h : Stiffer rigid rigid') :
    rigid'.length = rigid.length :=
  h.1.length_eq.symm

/-- Marking the rows whose test fails: every rigid row has a passing test, and one row
fails. -/
theorem stiffer_of_fails {α : Type} (rows : List (α × Bool)) (fails : α × Bool → Bool)
    (hrigid : ∀ a, fails (a, true) = false) (hany : (rows.map fails).any id = true) :
    Stiffer (rows.map Prod.snd)
      (((rows.map Prod.snd).zip (rows.map fails)).map fun x => x.1 || x.2) := by
  rw [List.zip_map', List.map_map]
  constructor
  · rw [List.forall₂_map_left_iff, List.forall₂_map_right_iff, List.forall₂_same]
    intro row _ hg
    simp [hg]
  · obtain ⟨f, hf, hfid⟩ := List.any_eq_true.1 hany
    obtain ⟨⟨a, g⟩, hrow, rfl⟩ := List.mem_map.1 hf
    cases g with
    | true => simp [hrigid] at hfid
    | false =>
      -- the failing row was free, and is rigid after
      intro heq
      have hsame := (List.map_inj_left.1 heq) (a, false) hrow
      simp_all

/-! ## One round -/

section Round

variable {weights required : List Float} {width : Float}

/-- A round that does not settle marks a free gap rigid. -/
theorem relaxRound_stiffens {rigid rigid' : List Bool}
    (hlen : rigid.length ≤ (weights.zip required).length)
    (h : relaxRound weights required width rigid = .inr rigid') : Stiffer rigid rigid' := by
  simp only [relaxRound] at h
  split at h
  · split at h <;> cases h
  split at h
  case isFalse.isFalse => cases h
  rename_i hany
  obtain rfl := Sum.inr.inj h
  -- the failing test reads the gap's share beside its row, and fails no rigid row; the rows'
  -- last components are the rigid set, as there is a weight and a need for every gap
  rw [← List.map_prod_left_eq_zip, List.map_map] at hany ⊢
  have hsnd := List.map_snd_zip hlen
  generalize (weights.zip required).zip rigid = rows at hany hsnd ⊢
  subst hsnd
  exact stiffer_of_fails _ _ (fun _ => by simp) hany

theorem relaxRound_settles_or_stiffens (rigid : List Bool)
    (hlen : rigid.length ≤ (weights.zip required).length) :
    (∃ shares, relaxRound weights required width rigid = .inl shares) ∨
      ∃ rigid', relaxRound weights required width rigid = .inr rigid' ∧ Stiffer rigid rigid' := by
  cases h : relaxRound weights required width rigid with
  | inl shares => exact .inl ⟨shares, rfl⟩
  | inr rigid' => exact .inr ⟨rigid', rfl, relaxRound_stiffens hlen h⟩

theorem relaxRound_length {rigid : List Bool} {shares : DispatchStatus × List Float}
    (hr : required.length = weights.length) (hlen : rigid.length = weights.length)
    (h : relaxRound weights required width rigid = .inl shares) :
    shares.2.length = weights.length := by
  simp only [relaxRound] at h
  split_ifs at h <;> obtain rfl := Sum.inl.inj h <;> simp [hr, hlen]

end Round

/-! ## Rounds until one settles -/

/-- `Relaxes weights required width rigid k shares`: from the rigid gaps `rigid`, the rounds
of relaxation settle on `shares` in round `k`. -/
inductive Relaxes (weights required : List Float) (width : Float) :
    List Bool → Nat → DispatchStatus × List Float → Prop
  | settle {rigid shares} : relaxRound weights required width rigid = .inl shares →
      Relaxes weights required width rigid 1 shares
  | stiffen {rigid rigid' k shares} : relaxRound weights required width rigid = .inr rigid' →
      Relaxes weights required width rigid' k shares →
      Relaxes weights required width rigid (k + 1) shares

section Rounds

variable {weights required : List Float} {width : Float}

theorem Relaxes.relaxWith_eq {rigid : List Bool} {k : Nat} {shares : DispatchStatus × List Float}
    (h : Relaxes weights required width rigid k shares) {fuel : Nat} (hk : k ≤ fuel) :
    relaxWith weights required width fuel rigid = shares := by
  induction h generalizing fuel with
  | settle hround =>
    obtain ⟨fuel, rfl⟩ : ∃ f, fuel = f + 1 := ⟨fuel - 1, by omega⟩
    simp [relaxWith, hround]
  | stiffen hround _ ih =>
    obtain ⟨fuel, rfl⟩ : ∃ f, fuel = f + 1 := ⟨fuel - 1, by omega⟩
    simp only [relaxWith, hround]
    exact ih (by omega)

/-- From `c` free gaps, one of the first `c + 1` rounds settles: each round before it frees
one gap fewer. -/
theorem relaxes_within (rigid : List Bool)
    (hlen : rigid.length ≤ (weights.zip required).length) :
    ∃ k ≤ rigid.count false + 1, ∃ shares, Relaxes weights required width rigid k shares := by
  induction hc : rigid.count false using Nat.strong_induction_on generalizing rigid with
  | _ c ih =>
    rcases relaxRound_settles_or_stiffens rigid hlen with ⟨shares, h⟩ | ⟨rigid', h, hst⟩
    · exact ⟨1, by omega, shares, .settle h⟩
    · have hlt := hst.count_lt
      obtain ⟨k, hk, shares, hrel⟩ :=
        ih _ (hc ▸ hlt) rigid' (hst.length_eq ▸ hlen) rfl
      exact ⟨k + 1, by omega, shares, .stiffen h hrel⟩

theorem Relaxes.length_eq {rigid : List Bool} {k : Nat} {shares : DispatchStatus × List Float}
    (h : Relaxes weights required width rigid k shares) (hr : required.length = weights.length)
    (hlen : rigid.length = weights.length) : shares.2.length = weights.length := by
  induction h with
  | settle hround => exact relaxRound_length hr hlen hround
  | stiffen hround _ ih =>
    have hst := relaxRound_stiffens (by simp [hr, hlen]) hround
    exact ih (hst.length_eq.trans hlen)

/-- `relax` settles within one round more than there are gaps, and the loop's answer is the
settled one. -/
theorem relax_relaxes (hr : required.length = weights.length) :
    ∃ k ≤ weights.length + 1,
      Relaxes weights required width (weights.map (· ≤ layoutEpsilon)) k
        (relax weights required width) := by
  have hlen : (weights.map (· ≤ layoutEpsilon) : List Bool).length ≤
      (weights.zip required).length := by
    simp [hr]
  obtain ⟨k, hk, shares, hrel⟩ := @relaxes_within weights required width _ hlen
  have hfree : (weights.map (· ≤ layoutEpsilon) : List Bool).count false ≤ weights.length :=
    List.count_le_length.trans (by simp)
  have hshares : relax weights required width = shares :=
    hrel.relaxWith_eq (by omega)
  exact ⟨k, by omega, hshares ▸ hrel⟩

theorem relax_length (hr : required.length = weights.length) :
    (relax weights required width).2.length = weights.length := by
  obtain ⟨_, _, hrel⟩ := @relax_relaxes weights required width hr
  exact hrel.length_eq hr (by simp)

end Rounds

/-! ## A section's gaps and offsets -/

theorem size_foldl_push {α β σ : Type} (f : Array β × σ → α → Array β × σ)
    (hf : ∀ s a, (f s a).1.size = s.1.size + 1) (l : List α) (s : Array β × σ) :
    (l.foldl f s).1.size = s.1.size + l.length := by
  induction l generalizing s with
  | nil => rfl
  | cons a l ih =>
    rw [List.foldl_cons, ih, hf, List.length_cons]
    omega

theorem SectionRequest.gaps_length (r : SectionRequest) :
    r.gaps.length = r.columns.length + 1 := by
  simp only [SectionRequest.gaps, Array.length_toList, Array.size_push]
  rw [size_foldl_push _ (fun _ _ => Array.size_push ..)]
  simp

theorem foldl_offsets (ws : List Float) (arr : Array Float) (x : Float) :
    (ws.foldl (fun (acc : Array Float × Float) w => (acc.1.push (acc.2 + w), acc.2 + w))
      (arr, x)).1.toList =
      arr.toList ++ (List.range ws.length).map fun i => (ws.take (i + 1)).foldl (· + ·) x := by
  induction ws generalizing arr x with
  | nil => simp
  | cons w ws ih =>
    rw [List.foldl_cons, ih, List.length_cons, List.range_succ_eq_map]
    simp

theorem dispatchCompute_gaps_length (r : SectionRequest) (width : Float) :
    (dispatchCompute r width).gaps.length = r.columns.length + 1 := by
  have hsoft := @relax_length (r.gaps.map (·.weight)) (r.gaps.map fun g => fmax g.soft g.hard)
    width (by simp)
  have hhard := @relax_length (r.gaps.map (·.weight)) (r.gaps.map (·.hard)) width (by simp)
  simp only [dispatchCompute]
  split
  case h_1 heq =>
    rw [heq] at hsoft
    simpa [SectionRequest.gaps_length] using hsoft
  case h_2 => simpa [SectionRequest.gaps_length] using hhard

theorem dispatchCompute_offsets (r : SectionRequest) (width : Float) :
    (dispatchCompute r width).offsets = (List.range r.columns.length).map fun i =>
      ((dispatchCompute r width).gaps.take (i + 1)).foldl (· + ·) 0.0 := by
  have hlen := dispatchCompute_gaps_length r width
  have htake : ((dispatchCompute r width).gaps.take r.columns.length).length =
      r.columns.length := by
    simp [hlen]
  show (((dispatchCompute r width).gaps.take r.columns.length).foldl _ (#[], 0.0)).1.toList = _
  rw [foldl_offsets, htake, Array.toList_empty, List.nil_append]
  refine List.map_congr_left fun i hi => ?_
  rw [List.take_take, Nat.min_eq_left (List.mem_range.1 hi)]

/-- Relaxation stops for every weights, needs and width: within one round more than there
are gaps, each round settling or marking a free gap rigid; and a section laid out gets one gap
more than it has positions, with each position at the sum of the gaps up to it. -/
theorem relax_stops_and_offsets_add_up (weights required : List Float) (width : Float)
    (hr : required.length = weights.length) :
    (∃ k ≤ weights.length + 1,
      Relaxes weights required width (weights.map (· ≤ layoutEpsilon)) k
        (relax weights required width)) ∧
    (∀ rigid : List Bool, rigid.length = weights.length →
      (∃ shares, relaxRound weights required width rigid = .inl shares) ∨
        ∃ rigid', relaxRound weights required width rigid = .inr rigid' ∧ Stiffer rigid rigid') ∧
    ∀ (r : SectionRequest) (w : Float),
      (dispatchCompute r w).gaps.length = r.columns.length + 1 ∧
      (dispatchCompute r w).offsets = (List.range r.columns.length).map fun i =>
        ((dispatchCompute r w).gaps.take (i + 1)).foldl (· + ·) 0.0 :=
  ⟨relax_relaxes hr,
    fun rigid hlen => relaxRound_settles_or_stiffens rigid (by simp [hr, hlen]),
    fun r w => ⟨dispatchCompute_gaps_length r w, dispatchCompute_offsets r w⟩⟩

/-- Two gaps, one of no weight, sharing a width of two. -/
theorem relax_stops_two_gaps :
    [0.5, 0.25].length = [1.0, 0.0].length ∧
    (∃ k ≤ [1.0, 0.0].length + 1,
      Relaxes [1.0, 0.0] [0.5, 0.25] 2.0 ([1.0, 0.0].map (· ≤ layoutEpsilon)) k
        (relax [1.0, 0.0] [0.5, 0.25] 2.0)) ∧
    (∀ rigid : List Bool, rigid.length = [1.0, 0.0].length →
      (∃ shares, relaxRound [1.0, 0.0] [0.5, 0.25] 2.0 rigid = .inl shares) ∨
        ∃ rigid', relaxRound [1.0, 0.0] [0.5, 0.25] 2.0 rigid = .inr rigid' ∧
          Stiffer rigid rigid') ∧
    ∀ (r : SectionRequest) (w : Float),
      (dispatchCompute r w).gaps.length = r.columns.length + 1 ∧
      (dispatchCompute r w).offsets = (List.range r.columns.length).map fun i =>
        ((dispatchCompute r w).gaps.take (i + 1)).foldl (· + ·) 0.0 :=
  have hr : [0.5, 0.25].length = [1.0, 0.0].length := by simp
  ⟨hr, relax_stops_and_offsets_add_up [1.0, 0.0] [0.5, 0.25] 2.0 hr⟩

end Jianpu
