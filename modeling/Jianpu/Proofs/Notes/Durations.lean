import Mathlib
import Jianpu.Proofs.Notes.Timing
import Jianpu.Proofs.Frac.Order
/-!
# Durations are positive

A section's notes are read at ratios built from `1` by the reduction, by tuplet factors
`f/c` with `1 ≤ f, c ≤ 64` (or `2/3`), and by nothing; a group whose product would be
indeterminate is not entered. When the reduction stands for a positive rational whose parts
read back as its own, every such product is positive: multiplying fractions of that kind is
exact or indeterminate (`Frac.positive_mul`). The unit of a time signature that parsing
accepts is positive too, so every note lasts a positive time or the indeterminate value, each
note starts later than the one before it unless the start has become indeterminate, and the
written length is at least zero or indeterminate.

A reduction whose denominator is `2^63` is accepted by the property parser but does not read
back as its own: its denominator reads as `-2^63`, and a product with it can change sign.

* `Within.positive` — every group entered has a positive ratio.
* `LaidFrom.steps_up` — notes of positive length laid end to end start later and later.
* `readNotes_durations_positive` — the same for a section.
-/

namespace Jianpu

variable {α : Type}

/-! ## The factors -/

theorem mapM_option_forall {β γ : Type} {f : β → Option γ} {P : γ → Prop}
    (hf : ∀ b v, f b = some v → P v) :
    ∀ {l : List β} {vs : List γ}, l.mapM f = some vs → ∀ v ∈ vs, P v
  | [], vs, h => by
    simp only [List.mapM_nil, Option.pure_def, Option.some.injEq] at h
    simp [← h]
  | b :: l, vs, h => by
    simp only [List.mapM_cons, Option.bind_eq_bind, Option.bind_eq_some_iff, Option.pure_def,
      Option.some.injEq] at h
    obtain ⟨v, hv, vs', hvs', rfl⟩ := h
    intro w hw
    rcases List.mem_cons.1 hw with rfl | hw
    · exact hf b w hv
    · exact mapM_option_forall hf hvs' w hw

/-- A tuplet descriptor that reads gives two factors from `1` to `64`. -/
theorem tupletRatio_bounds {d : Bracketed} {f c : Int} (h : tupletRatio d = some (f, c)) :
    (1 ≤ f ∧ f ≤ 64) ∧ 1 ≤ c ∧ c ≤ 64 := by
  unfold tupletRatio at h
  simp only [Option.bind_eq_bind, Option.bind_eq_some_iff] at h
  obtain ⟨values, hvalues, h⟩ := h
  have hin : ∀ v ∈ values, 1 ≤ v ∧ v ≤ 64 := by
    refine mapM_option_forall (fun g v hg => ?_) hvalues
    split at hg
    · obtain ⟨-, hv⟩ := Option.filter_eq_some_iff.1 hg
      simp only [Bool.and_eq_true, decide_eq_true_eq, maxTupletFactor] at hv
      exact ⟨hv.1, of_decide_eq_true hv.2⟩
    · cases hg
  match values, h with
  | [f', c'], h =>
    simp only [Option.some.injEq, Prod.mk.injEq] at h
    obtain ⟨rfl, rfl⟩ := h
    exact ⟨hin f' (by simp), hin c' (by simp)⟩

theorem tupletScale_positive (desc : Option Bracketed) : (tupletScale desc).Positive := by
  unfold tupletScale tupletFactor
  cases h : desc.bind tupletRatio with
  | none => exact Frac.positive_make (by decide) (by decide) (by decide) (by decide)
  | some r =>
    obtain ⟨d, -, hd⟩ := Option.bind_eq_some_iff.1 h
    obtain ⟨⟨hf, hf'⟩, hc, hc'⟩ := tupletRatio_bounds hd
    rw [Option.getD_some]
    exact Frac.positive_make (by omega) (by omega)
      (by simp [Decimal.i64Max]; omega) (by simp [Decimal.i64Max]; omega)

theorem MusicProps.unit_positive {p : MusicProps}
    (hm : ∀ m ∈ p.meter, 0 < m.defaults ∧ m.defaults ≤ Decimal.i64Max) : p.unit.Positive := by
  unfold MusicProps.unit
  cases h : p.meter with
  | none => exact Frac.positive_one
  | some m =>
    obtain ⟨hd, hd'⟩ := hm m h
    exact Frac.positive_make (by decide) hd (by decide) hd'

theorem Within.positive {p : MusicProps} {top inner : List Atom} {ρ₀ ρ : Frac}
    (hred : p.reduction.Positive) (h₀ : ρ₀.Positive) (h : Within p top ρ₀ inner ρ) :
    ρ.Positive := by
  induction h with
  | here => exact h₀
  | paren _ _ _ hi ih =>
    exact (Frac.positive_mul ih hred).resolve_right (Frac.ne_indeterminate_of_isIndeterminate hi)
  | tuplet _ _ _ hi ih =>
    exact (Frac.positive_mul ih (tupletScale_positive _)).resolve_right
      (Frac.ne_indeterminate_of_isIndeterminate hi)
  | double _ _ _ ih => exact ih

/-! ## Lengths -/

/-- A note of `d` dots lasts its unit times `(2^(d+1) - 1)/2^d`, a positive factor. -/
theorem dottedLength_positive {u : Frac} (hu : u.Positive ∨ u = .indeterminate) (dots : Nat) :
    (dottedLength u dots).Positive ∨ dottedLength u dots = .indeterminate := by
  unfold dottedLength
  have hd : min dots maxDots ≤ 8 := min_le_right _ _
  have hpow : (2 : Int) ^ (min dots maxDots + 1) ≤ 2 ^ 9 :=
    pow_le_pow_right₀ (by norm_num) (by omega)
  have hpos : (0 : Int) < 2 ^ min dots maxDots := by positivity
  have hlt : (2 : Int) ^ min dots maxDots < 2 ^ (min dots maxDots + 1) :=
    pow_lt_pow_right₀ (by norm_num) (by omega)
  refine Frac.positive_mul_or hu (Frac.positive_make ?_ hpos ?_ ?_)
  · show (0 : Int) < 2 ^ (min dots maxDots + 1) - 1
    omega
  · show (2 : Int) ^ (min dots maxDots + 1) - 1 ≤ Decimal.i64Max
    simp only [Decimal.i64Max]
    omega
  · show (2 : Int) ^ min dots maxDots ≤ Decimal.i64Max
    simp only [Decimal.i64Max]
    omega

theorem ReadAt.positive {u : Frac} {a : Atom} {n : MusicNote α}
    (hu : u.Positive ∨ u = .indeterminate) (h : ReadAt u a n) :
    n.length.Positive ∨ n.length = .indeterminate := by
  unfold ReadAt at h
  split at h
  · rw [h.2.2.2]
    exact hu
  · rw [h.1]
    exact dottedLength_positive hu _

theorem Timed.positive {p : MusicProps} {top : List Atom} {n : MusicNote α}
    (hunit : p.unit.Positive) (hred : p.reduction.Positive) (h : Timed p top 1 n) :
    n.length.Positive ∨ n.length = .indeterminate := by
  obtain ⟨inner, ρ, a, hin, -, hread⟩ := h
  exact hread.positive (Frac.positive_mul hunit (hin.positive hred Frac.positive_one))

/-! ## Positions -/

def StepsUp (x y : Frac) : Prop :=
  y = .indeterminate ∨ ∃ u v, x.value? = some u ∧ y.value? = some v ∧ u < v

theorem stepsUp_add {x l : Frac} (hx : x.NonNeg ∨ x = .indeterminate)
    (hl : l.Positive ∨ l = .indeterminate) :
    StepsUp x (x + l) ∧ ((x + l).NonNeg ∨ x + l = .indeterminate) := by
  rcases hx with hx | rfl
  · rcases hl with hl | rfl
    · rcases Frac.nonNeg_add_positive hx hl with ⟨hnn, hup⟩ | hind
      · exact ⟨.inr hup, .inl hnn⟩
      · exact ⟨.inl hind, .inr hind⟩
    · simp [StepsUp]
  · simp [StepsUp]

/-- Notes of positive or indeterminate length laid end to end from a position of at least
zero: each starts later than the one before it or at the indeterminate value, and the end is
at least zero or indeterminate. -/
theorem LaidFrom.steps_up {ns : List (MusicNote α)} :
    ∀ {pos stop : Frac}, LaidFrom pos ns stop → (pos.NonNeg ∨ pos = .indeterminate) →
    (∀ n ∈ ns, n.length.Positive ∨ n.length = .indeterminate) →
    (∀ i (h : i + 1 < ns.length), StepsUp ns[i].startPos ns[i + 1].startPos) ∧
      (stop.NonNeg ∨ stop = .indeterminate) := by
  induction ns with
  | nil =>
    intro pos stop h hpos _
    exact ⟨fun _ hi => absurd hi (by rw [List.length_nil]; omega), by rw [h]; exact hpos⟩
  | cons n ns ih =>
    intro pos stop h hpos hlen
    obtain ⟨hs, hrest⟩ := h
    have hstep := stepsUp_add hpos (hlen n List.mem_cons_self)
    obtain ⟨hsteps, hstop⟩ := ih hrest hstep.2 fun m hm => hlen m (List.mem_cons_of_mem _ hm)
    refine ⟨fun i hi => ?_, hstop⟩
    cases i with
    | zero =>
      -- the second note starts where the first ends
      cases ns with
      | nil =>
        rw [List.length_singleton] at hi
        omega
      | cons m ms =>
        rw [List.getElem_cons_zero, List.getElem_cons_succ, List.getElem_cons_zero, hrest.1, hs]
        exact hstep.1
    | succ i =>
      simp only [List.getElem_cons_succ]
      exact hsteps i (by rw [List.length_cons] at hi; omega)

theorem Frac.nonNeg_zero : (0 : Frac).NonNeg :=
  ⟨by decide, Frac.proper_zero, 0, by decide +kernel, le_refl 0⟩

/-! ## A section -/

variable [NoteHead α]

/-- **Durations are positive.** Under a reduction that stands for a positive rational with
parts that read back as its own, and a time signature as parsing accepts it, every group the
reading of a section enters has a positive ratio. Read without swing, every note lasts a
positive time or the indeterminate value, each note starts later than the one before it or at
the indeterminate value (which then stays), and the written length is at least zero or
indeterminate. -/
theorem readNotes_durations_positive (cx : NoteScope) (items : List Piece)
    (hswing : cx.props.meter.bind (·.swing.period) = none)
    (hmeter : ∀ m ∈ cx.props.meter, 0 < m.defaults ∧ m.defaults ≤ Decimal.i64Max)
    (hred : cx.props.reduction.Positive) :
    (∀ inner ρ, Within cx.props (atomize items) 1 inner ρ → ρ.Positive) ∧
      Always (readNotes cx items : Compiling (Eaten α × Frac)) fun r =>
        (∀ n ∈ r.1.notes.toList, n.length.Positive ∨ n.length = .indeterminate) ∧
        (∀ i (h : i + 1 < r.1.notes.size),
          StepsUp r.1.notes[i].startPos r.1.notes[i + 1].startPos) ∧
        (r.2.NonNeg ∨ r.2 = .indeterminate) := by
  refine ⟨fun _ _ hin => hin.positive hred Frac.positive_one,
    (readNotes_reading cx items hswing).imp fun r hr => ?_⟩
  have hlen : ∀ n ∈ r.1.notes.toList, n.length.Positive ∨ n.length = .indeterminate :=
    fun n hn => (hr.timed n hn).positive (MusicProps.unit_positive hmeter) hred
  obtain ⟨hsteps, htotal⟩ := hr.laid.steps_up (.inl Frac.nonNeg_zero) hlen
  refine ⟨hlen, fun i hi => ?_, htotal⟩
  have h := hsteps i (by simpa using hi)
  simpa only [Array.getElem_toList] using h

theorem readNotes_durations_positive_in_four_four :
    let cx : NoteScope := ⟨1, ⟨"1 (2 3) 4".toList.toArray, 0⟩, { meter := some ⟨4, 4, .none, []⟩ }⟩
    let items : List Piece := [.token ⟨.word, "1", ⟨0, 1⟩, false⟩,
      .pair ⟨2, 7⟩ (some .paren) true
        [[.token ⟨.word, "2", ⟨3, 4⟩, false⟩, .token ⟨.word, "3", ⟨5, 6⟩, false⟩]] "(2 3)",
      .token ⟨.word, "4", ⟨8, 9⟩, false⟩]
    cx.props.meter.bind (·.swing.period) = none ∧
      (∀ m ∈ cx.props.meter, 0 < m.defaults ∧ m.defaults ≤ Decimal.i64Max) ∧
      cx.props.reduction.Positive ∧
      (∀ inner ρ, Within cx.props (atomize items) 1 inner ρ → ρ.Positive) ∧
      Always (readNotes cx items : Compiling (Eaten Pitch × Frac)) fun r =>
        (∀ n ∈ r.1.notes.toList, n.length.Positive ∨ n.length = .indeterminate) ∧
        (∀ i (h : i + 1 < r.1.notes.size),
          StepsUp r.1.notes[i].startPos r.1.notes[i + 1].startPos) ∧
        (r.2.NonNeg ∨ r.2 = .indeterminate) := by
  intro cx items
  have hmeter : ∀ m ∈ cx.props.meter, 0 < m.defaults ∧ m.defaults ≤ Decimal.i64Max := by
    intro m hm
    rw [Option.mem_def, Option.some.injEq] at hm
    subst hm
    decide
  have hred : cx.props.reduction.Positive :=
    Frac.positive_make (show (0 : Int) < 1 by decide) (show (0 : Int) < 2 by decide) (by decide)
      (by decide)
  exact ⟨rfl, hmeter, hred, readNotes_durations_positive cx items rfl hmeter hred⟩

end Jianpu
