import Mathlib
import Jianpu.Proofs.Columns.Rows
/-!
# When the notes of a section sound

The note reader walks a section's atoms from position `0`. Each note it reads starts where
the one before it ended, so the notes lie end to end and the section's length is the sum of
theirs (`LaidFrom`). A note nested in groups lasts a beat, times the factor of each group
around it, times the factor of its dots:

* `( ... )` contributes the reduction of the properties;
* `T[f,c]( ... )` contributes `f/c`, and `T( ... )` or a descriptor that does not read
  contributes `2/3`;
* `D( ... )` contributes nothing.

A group whose factor would make the ratio indeterminate is not entered: it is warned about
and passed over. `Within p top ρ₀ inner ρ` says that `inner` is the inside of a chain of
entered groups in `top`, read at `ρ` when `top` is read at `ρ₀`. A tuplet bracket starts where
its group starts and ends where the group's notes end.

* `eatAtoms_adds` — what one reading of atoms adds (`Adds`, `Reading`): notes laid end to
  end, each read at the ratio of the groups around its head, and a bracket over each tuplet's
  notes. It is the run lemma of the reader, one case per branch of it.
* `eatAtoms_paren_indeterminate`, `eatAtoms_tuplet_indeterminate` — a group met at a ratio
  that would be indeterminate is warned about and adds nothing.
* `readNotes_timing` — all of it for a section read without swing.
-/

namespace Jianpu

variable {α : Type}

/-! ## Notes end to end -/

def LaidFrom : Frac → List (MusicNote α) → Frac → Prop
  | pos, [], stop => stop = pos
  | pos, n :: ns, stop => n.startPos = pos ∧ LaidFrom (pos + n.length) ns stop

namespace LaidFrom

@[simp] theorem nil_iff {pos stop : Frac} :
    LaidFrom pos ([] : List (MusicNote α)) stop ↔ stop = pos :=
  Iff.rfl

@[simp] theorem cons_iff {pos stop : Frac} {n : MusicNote α} {ns : List (MusicNote α)} :
    LaidFrom pos (n :: ns) stop ↔ n.startPos = pos ∧ LaidFrom (pos + n.length) ns stop :=
  Iff.rfl

theorem append {pos mid stop : Frac} :
    ∀ {xs ys : List (MusicNote α)}, LaidFrom pos xs mid → LaidFrom mid ys stop →
      LaidFrom pos (xs ++ ys) stop
  | [], _, hx, hy => by
    rw [nil_iff] at hx
    subst hx
    exact hy
  | _ :: _, _, hx, hy => ⟨hx.1, append hx.2 hy⟩

theorem stop_eq : ∀ {pos stop : Frac} {ns : List (MusicNote α)}, LaidFrom pos ns stop →
    stop = (ns.map (·.length)).foldl (· + ·) pos
  | _, _, [], h => h
  | _, _, _ :: _, h => by
    rw [List.map_cons, List.foldl_cons]
    exact stop_eq h.2

end LaidFrom

/-! ## The groups around a note -/

/-- The ratio `[f, c]` a tuplet's descriptor sets, `2/3` when there is none or it does not
read. -/
def tupletFactor (desc : Option Bracketed) : Int × Int :=
  (desc.bind tupletRatio).getD (2, 3)

def tupletScale (desc : Option Bracketed) : Frac :=
  Frac.make (tupletFactor desc).1 (tupletFactor desc).2

/-- `Within p top ρ₀ inner ρ`: `inner` is the inside of a chain of groups entered from `top`,
whose notes are read at `ρ` when those of `top` are read at `ρ₀`. A group is entered only at
a ratio that is not indeterminate. -/
inductive Within (p : MusicProps) (top : List Atom) (ρ₀ : Frac) : List Atom → Frac → Prop
  | here : Within p top ρ₀ top ρ₀
  | paren {atoms : List Atom} {ρ : Frac} {g : Bracketed} {j : Bool} :
      Within p top ρ₀ atoms ρ → .pair g j ∈ atoms → g.bracket = some .paren →
      (ρ * p.reduction).isIndeterminate = false →
      Within p top ρ₀ (innerAtoms g) (ρ * p.reduction)
  | tuplet {atoms xs : List Atom} {ρ : Frac} {desc : Option Bracketed} {g : Bracketed}
      {used : Nat} :
      Within p top ρ₀ atoms ρ → xs <:+ atoms → tupletAt xs = some ('T', desc, g, used) →
      (ρ * tupletScale desc).isIndeterminate = false →
      Within p top ρ₀ (innerAtoms g) (ρ * tupletScale desc)
  | double {atoms xs : List Atom} {ρ : Frac} {desc : Option Bracketed} {g : Bracketed}
      {used : Nat} :
      Within p top ρ₀ atoms ρ → xs <:+ atoms → tupletAt xs = some ('D', desc, g, used) →
      Within p top ρ₀ (innerAtoms g) ρ

namespace Within

variable {p : MusicProps} {top mid inner : List Atom} {ρ₀ ρ₁ ρ : Frac}

theorem trans (h₁ : Within p top ρ₀ mid ρ₁) (h₂ : Within p mid ρ₁ inner ρ) :
    Within p top ρ₀ inner ρ := by
  induction h₂ with
  | here => exact h₁
  | paren _ hg hb hi ih => exact .paren ih hg hb hi
  | tuplet _ hxs ht hi ih => exact .tuplet ih hxs ht hi
  | double _ hxs ht ih => exact .double ih hxs ht

end Within

/-- The note `n`, read from the atom `a` at the unit `u`: a `-` lasts the unit, with no dots;
a head lasts the unit times the factor of its dots, and covers the atoms from `a` on. -/
def ReadAt (u : Frac) (a : Atom) (n : MusicNote α) : Prop :=
  match n.kind with
  | .extend => a.char? = some '-' ∧ n.span = a.span ∧ n.suffix.dots = 0 ∧ n.length = u
  | .note _ => n.length = dottedLength u n.suffix.dots ∧ ∃ s, n.span = a.span.join s

/-- A note of the atoms `top` read at `ρ₀`: read from an atom of a group inside, at the unit
times that inside's ratio. -/
def Timed (p : MusicProps) (top : List Atom) (ρ₀ : Frac) (n : MusicNote α) : Prop :=
  ∃ inner ρ a, Within p top ρ₀ inner ρ ∧ a ∈ inner ∧ ReadAt (p.unit * ρ) a n

theorem Timed.lift {p : MusicProps} {top top' : List Atom} {ρ₀ ρ₁ : Frac} {n : MusicNote α}
    (hw : Within p top ρ₀ top' ρ₁) (h : Timed p top' ρ₁ n) : Timed p top ρ₀ n := by
  obtain ⟨inner, ρ, a, hin, ha, hread⟩ := h
  exact ⟨inner, ρ, a, hw.trans hin, ha, hread⟩

/-- The bracket `d` of a `T` group `g` met in a group inside read at `ρ`, over the notes `blk`
from `s` to `e`: they are notes of the group's inside at the tuplet's ratio, and the label
counts how many of the tuplet's units they fill. -/
def TupletOver (p : MusicProps) (top : List Atom) (ρ₀ : Frac) (blk : List (MusicNote α))
    (s e : Frac) (d : Decoration) : Prop :=
  ∃ atoms xs ρ desc g used, Within p top ρ₀ atoms ρ ∧ xs <:+ atoms ∧
    tupletAt xs = some ('T', desc, g, used) ∧ (ρ * tupletScale desc).isIndeterminate = false ∧
    (∀ n ∈ blk, Timed p (innerAtoms g) (ρ * tupletScale desc) n) ∧
    d = ⟨.tuplet, some s, some e, some (tupletLabel (tupletFactor desc).1 (tupletFactor desc).2
      ((e - s) / (p.unit * (ρ * tupletScale desc))))⟩

theorem TupletOver.lift {p : MusicProps} {top top' : List Atom} {ρ₀ ρ₁ s e : Frac}
    {blk : List (MusicNote α)} {d : Decoration} (hw : Within p top ρ₀ top' ρ₁)
    (h : TupletOver p top' ρ₁ blk s e d) : TupletOver p top ρ₀ blk s e d := by
  obtain ⟨atoms, xs, ρ, desc, g, used, hin, hrest⟩ := h
  exact ⟨atoms, xs, ρ, desc, g, used, hw.trans hin, hrest⟩

/-! ## What a reading adds -/

/-- The notes `ns` and brackets `ds` of a reading of `top` at `ρ₀` from `pos` to `stop`: the
notes lie end to end, each is a note of `top`, and each bracket stands over a run of them. -/
structure Reading (p : MusicProps) (top : List Atom) (ρ₀ : Frac) (pos stop : Frac)
    (ns : List (MusicNote α)) (ds : List Decoration) : Prop where
  laid : LaidFrom pos ns stop
  timed : ∀ n ∈ ns, Timed p top ρ₀ n
  brackets : ∀ d ∈ ds, ∃ pre blk post s e, ns = pre ++ blk ++ post ∧ LaidFrom pos pre s ∧
    LaidFrom s blk e ∧ TupletOver p top ρ₀ blk s e d

namespace Reading

variable {p : MusicProps} {top : List Atom} {ρ₀ pos mid stop : Frac}
  {ns ns' : List (MusicNote α)} {ds ds' : List Decoration}

theorem nil : Reading p top ρ₀ pos pos ([] : List (MusicNote α)) [] :=
  ⟨rfl, by simp, by simp⟩

theorem note {n : MusicNote α} (hs : n.startPos = pos) (hn : Timed p top ρ₀ n) :
    Reading p top ρ₀ pos (pos + n.length) [n] [] :=
  ⟨⟨hs, rfl⟩, by simpa using hn, by simp⟩

theorem append (h : Reading p top ρ₀ pos mid ns ds) (h' : Reading p top ρ₀ mid stop ns' ds') :
    Reading p top ρ₀ pos stop (ns ++ ns') (ds ++ ds') := by
  refine ⟨h.laid.append h'.laid, ?_, ?_⟩
  · intro n hn
    rcases List.mem_append.1 hn with hn | hn
    exacts [h.timed n hn, h'.timed n hn]
  · intro d hd
    rcases List.mem_append.1 hd with hd | hd
    · -- a bracket of the first part: what follows it grows by the second part
      obtain ⟨pre, blk, post, s, e, rfl, hpre, hblk, hover⟩ := h.brackets d hd
      exact ⟨pre, blk, post ++ ns', s, e, by simp, hpre, hblk, hover⟩
    · -- a bracket of the second part: what precedes it grows by the first part
      obtain ⟨pre, blk, post, s, e, rfl, hpre, hblk, hover⟩ := h'.brackets d hd
      exact ⟨ns ++ pre, blk, post, s, e, by simp, h.laid.append hpre, hblk, hover⟩

theorem lift {top' : List Atom} {ρ₁ : Frac} (hw : Within p top ρ₀ top' ρ₁)
    (h : Reading p top' ρ₁ pos stop ns ds) : Reading p top ρ₀ pos stop ns ds := by
  refine ⟨h.laid, fun n hn => (h.timed n hn).lift hw, fun d hd => ?_⟩
  obtain ⟨pre, blk, post, s, e, hns, hpre, hblk, hover⟩ := h.brackets d hd
  exact ⟨pre, blk, post, s, e, hns, hpre, hblk, hover.lift hw⟩

/-- The inside of a tuplet read at the tuplet's ratio, with the tuplet's bracket over all of
it. -/
theorem tuplet {atoms xs : List Atom} {ρ : Frac} {desc : Option Bracketed} {g : Bracketed}
    {used : Nat} (hw : Within p top ρ₀ atoms ρ) (hxs : xs <:+ atoms)
    (ht : tupletAt xs = some ('T', desc, g, used))
    (hi : (ρ * tupletScale desc).isIndeterminate = false)
    (h : Reading p (innerAtoms g) (ρ * tupletScale desc) pos stop ns ds) :
    Reading p top ρ₀ pos stop ns (ds ++ [⟨.tuplet, some pos, some stop,
      some (tupletLabel (tupletFactor desc).1 (tupletFactor desc).2
        ((stop - pos) / (p.unit * (ρ * tupletScale desc))))⟩]) := by
  have hin : Reading p top ρ₀ pos stop ns ds := h.lift (.tuplet hw hxs ht hi)
  refine ⟨h.laid, hin.timed, fun d hd => ?_⟩
  rcases List.mem_append.1 hd with hd | hd
  · exact hin.brackets d hd
  · rw [List.mem_singleton] at hd
    exact ⟨[], ns, [], pos, stop, by simp, rfl, h.laid,
      atoms, xs, ρ, desc, g, used, hw, hxs, ht, hi, h.timed, hd⟩

end Reading

/-- What a reading from `pos` adds to `out`: the notes and brackets of a reading of `top` at
`ρ₀`, up to the position it stops at. -/
def Adds (p : MusicProps) (top : List Atom) (ρ₀ pos : Frac) (out : Eaten α) :
    Frac × Eaten α → Prop
  | (stop, out') => ∃ ns ds, out'.notes.toList = out.notes.toList ++ ns ∧
    out'.decorations.toList = out.decorations.toList ++ ds ∧ Reading p top ρ₀ pos stop ns ds

namespace Adds

variable {p : MusicProps} {top : List Atom} {ρ₀ pos : Frac} {out : Eaten α}

theorem refl : Adds p top ρ₀ pos out (pos, out) :=
  ⟨[], [], by simp, by simp, .nil⟩

theorem trans {mid : Frac} {out₁ : Eaten α} {r : Frac × Eaten α}
    (h₁ : Adds p top ρ₀ pos out (mid, out₁)) (h₂ : Adds p top ρ₀ mid out₁ r) :
    Adds p top ρ₀ pos out r := by
  obtain ⟨stop, out₂⟩ := r
  obtain ⟨ns, ds, hn, hd, hr⟩ := h₁
  obtain ⟨ns', ds', hn', hd', hr'⟩ := h₂
  exact ⟨ns ++ ns', ds ++ ds', by rw [hn', hn, List.append_assoc],
    by rw [hd', hd, List.append_assoc], hr.append hr'⟩

theorem push {n : MusicNote α} (hs : n.startPos = pos) (hn : Timed p top ρ₀ n) :
    Adds p top ρ₀ pos out (pos + n.length, { out with notes := out.notes.push n }) :=
  ⟨[n], [], by simp, by simp, .note hs hn⟩

theorem read {note : Option (MusicNote α)}
    (hn : ∀ n ∈ note, n.startPos = pos ∧ Timed p top ρ₀ n) :
    Adds p top ρ₀ pos out ((note.map (pos + ·.length)).getD pos,
      { notes := (note.map out.notes.push).getD out.notes, decorations := out.decorations }) := by
  cases note with
  | none => exact refl
  | some n => exact push (hn n rfl).1 (hn n rfl).2

theorem tuplet {atoms xs : List Atom} {ρ stop : Frac} {desc : Option Bracketed} {g : Bracketed}
    {used : Nat} {fc c : Int} {out₁ : Eaten α} (hf : tupletFactor desc = (fc, c))
    (hw : Within p top ρ₀ atoms ρ) (hxs : xs <:+ atoms)
    (ht : tupletAt xs = some ('T', desc, g, used))
    (hi : (ρ * Frac.make fc c).isIndeterminate = false)
    (h : Adds p (innerAtoms g) (ρ * Frac.make fc c) pos out (stop, out₁)) :
    Adds p top ρ₀ pos out (stop, { out₁ with decorations := out₁.decorations.push ⟨.tuplet,
      some pos, some stop, some (tupletLabel fc c ((stop - pos) / (p.unit * (ρ * Frac.make fc c))))⟩ }) := by
  have hs : tupletScale desc = Frac.make fc c := by rw [tupletScale, hf]
  obtain ⟨ns, ds, hn, hd, hr⟩ := h
  rw [← hs] at hi hr
  have hread := Reading.tuplet hw hxs ht hi hr
  rw [hs, hf] at hread
  exact ⟨ns, _, hn, by simp [hd], hread⟩

end Adds

/-! ## One reading of atoms -/

theorem suffix_drop_tail {a : Atom} {rest level : List Atom} (h : a :: rest <:+ level) (k : Nat) :
    rest.drop k <:+ level :=
  ((List.drop_suffix k rest).trans (List.suffix_cons a rest)).trans h

theorem tupletAt_letter {xs : List Atom} {l : Char} {desc : Option Bracketed} {g : Bracketed}
    {used : Nat} (h : tupletAt xs = some (l, desc, g, used)) : l = 'T' ∨ l = 'D' := by
  unfold tupletAt at h
  split at h
  · rename_i c _ _ next more
    split at h
    · rename_i hguard
      -- every kind of tuplet keeps the letter it starts with
      have hc : c = l := by
        split at h
        · split at h
          · obtain ⟨_, -, h⟩ := Option.map_eq_some_iff.1 h
            exact congrArg Prod.fst h
          · cases h
        · cases h
        · obtain ⟨_, -, h⟩ := Option.map_eq_some_iff.1 h
          exact congrArg Prod.fst h
      subst hc
      simp only [Bool.and_eq_true, Bool.or_eq_true, beq_iff_eq] at hguard
      exact hguard.1
    · cases h
  · cases h

theorem readTupletRatio_factor (line : Nat) (desc : Option Bracketed) :
    Always (readTupletRatio line desc) (· = tupletFactor desc) := by
  cases desc with
  | none => exact Always.pure rfl
  | some d =>
    cases h : tupletRatio d with
    | some r =>
      simp only [readTupletRatio, h]
      exact Always.pure (by simp [tupletFactor, h])
    | none =>
      simp only [readTupletRatio, h]
      exact Always.warn_then (by simp [tupletFactor, h])

theorem readTupletRatio_bind {β : Type} (line : Nat) (desc : Option Bracketed)
    (k : Int × Int → Compiling β) :
    (readTupletRatio line desc >>= k) =
      (readTupletRatio line desc >>= fun _ => k (tupletFactor desc)) := by
  cases desc with
  | none => rfl
  | some d =>
    cases h : tupletRatio d with
    | some r => simp [readTupletRatio, tupletFactor, h]
    | none => simp [readTupletRatio, tupletFactor, h]

variable [NoteHead α]

theorem readNote_reads (cx : NoteScope) (pos unit : Frac) (a : Atom) (rest : List Atom) :
    Always (readNote cx pos unit a rest : Compiling (Nat × Option (MusicNote α)))
      fun r => ∀ n ∈ r.2, n.startPos = pos ∧ ReadAt unit a n := by
  unfold readNote
  refine Always.any.bind fun h _ => ?_
  cases h with
  | note c used =>
    refine Always.any.bind fun r _ => Always.pure ?_
    intro n hn
    rw [Option.mem_def, Option.some.injEq] at hn
    subst hn
    exact ⟨rfl, rfl, _, rfl⟩
  | skip used => exact Always.pure (by simp)
  | notMine => exact Always.warn_then (by simp)

theorem eatAtoms_adds (cx : NoteScope) (fuel : Nat) (ratio pos : Frac) (out : Eaten α)
    (atoms : List Atom) :
    ∀ {top level : List Atom} {ρ₀ : Frac}, atoms <:+ level → Within cx.props top ρ₀ level ratio →
      Always (eatAtoms cx fuel ratio pos out atoms) (Adds cx.props top ρ₀ pos out) := by
  fun_induction eatAtoms cx fuel ratio pos out atoms
  case case1 => exact fun _ _ => Always.pure .refl
  case case2 ratio pos out a rest l desc g used f ht hD ih2 ih1 =>
    intro top level ρ₀ hsuf hw
    rw [beq_iff_eq] at hD
    subst hD
    -- `D` groups its inside at the same ratio
    have hin : Within cx.props top ρ₀ (innerAtoms g) ratio := .double hw hsuf ht
    exact (ih2 List.suffix_rfl hin).bind fun ⟨mid, out₁⟩ h₁ =>
      (ih1 mid out₁ (suffix_drop_tail hsuf _) hw).imp fun _ h₂ => h₁.trans h₂
  case case3 ratio pos out a rest l desc g used f ht hD ih3 ih2 ih1 =>
    intro top level ρ₀ hsuf hw
    have hT : tupletAt (a :: rest) = some ('T', desc, g, used) := by
      rcases tupletAt_letter ht with rfl | rfl
      · exact ht
      · exact absurd rfl hD
    refine (readTupletRatio_factor cx.line desc).bind fun ⟨fc, c⟩ hf => ?_
    dsimp only
    split
    · exact Always.any.bind fun _ _ => ih3 (suffix_drop_tail hsuf _) hw
    · rename_i hi
      rw [Bool.not_eq_true] at hi
      exact (ih2 fc c List.suffix_rfl .here).bind fun ⟨mid, out₁⟩ h₁ =>
        (ih1 fc c mid out₁ (suffix_drop_tail hsuf _) hw).imp fun _ h₂ =>
          (h₁.tuplet hf.symm hw hsuf hT hi).trans h₂
  case case4 ratio pos out a rest l desc g used ht ih1 =>
    -- out of fuel: the group is passed over
    exact fun hsuf hw => ih1 (suffix_drop_tail hsuf _) hw
  case case5 fuel ratio pos out rest unit n j note ht ih1 =>
    intro top level ρ₀ hsuf hw
    -- a `-` lasts one unit at the ratio it is read at
    have hn : Timed cx.props top ρ₀ note :=
      ⟨level, ratio, _, hw, hsuf.subset List.mem_cons_self, rfl, rfl, rfl, rfl⟩
    exact (ih1 ((List.suffix_cons _ _).trans hsuf) hw).imp fun _ h => (Adds.push rfl hn).trans h
  case case6 ratio pos out rest g j hb reduced f hi ht ih2 ih1 =>
    intro top level ρ₀ hsuf hw
    have hin : Within cx.props top ρ₀ (innerAtoms g) reduced :=
      .paren hw (hsuf.subset List.mem_cons_self) (by simpa using hb) hi
    rw [hi]
    exact (ih2 List.suffix_rfl hin).bind fun ⟨mid, out₁⟩ h₁ =>
      (ih1 mid out₁ ((List.suffix_cons _ _).trans hsuf) hw).imp fun _ h₂ => h₁.trans h₂
  case case7 ratio pos out rest g j hb reduced hi ht ih1 =>
    rw [hi]
    exact fun hsuf hw => ih1 ((List.suffix_cons _ _).trans hsuf) hw
  case case8 fuel ratio pos out rest g j hb reduced hi ht ih1
      | case9 fuel ratio pos out rest g j hb ht ih1
      | case10 fuel ratio pos out rest c n j hc hd ht ih1 =>
    -- warned about and passed over
    exact fun hsuf hw => Always.any.bind fun _ _ => ih1 ((List.suffix_cons _ _).trans hsuf) hw
  case case11 fuel ratio pos out rest unit c n j hc hd ht ih1
      | case12 fuel ratio pos out rest unit text span j ht ih1 =>
    intro top level ρ₀ hsuf hw
    exact (readNote_reads cx pos unit _ rest).bind fun ⟨k, note⟩ hr =>
      (ih1 k note (suffix_drop_tail hsuf _) hw).imp fun _ h =>
        (Adds.read fun n hn =>
          ⟨(hr n hn).1, level, ratio, _, hw, hsuf.subset List.mem_cons_self, (hr n hn).2⟩).trans h

/-! ## Groups passed over -/

/-- A `( )` group whose ratio would be indeterminate is warned about and passed over: the
reading goes on from the same position with the notes it had. -/
theorem eatAtoms_paren_indeterminate (cx : NoteScope) (fuel : Nat) (ratio pos : Frac)
    (out : Eaten α) (g : Bracketed) (j : Bool) (rest : List Atom)
    (hg : g.bracket = some .paren) (hi : (ratio * cx.props.reduction).isIndeterminate = true) :
    eatAtoms cx fuel ratio pos out (.pair g j :: rest) =
      (do warn cx.line g.span.start (.badNesting g.text); eatAtoms cx fuel ratio pos out rest) := by
  rw [eatAtoms]
  simp [hg, hi]

/-- A `T` group whose ratio would be indeterminate is warned about and passed over, after its
descriptor is read: the reading goes on after the group from the same position with the notes
it had. -/
theorem eatAtoms_tuplet_indeterminate (cx : NoteScope) (fuel : Nat) (ratio pos : Frac)
    (out : Eaten α) (a : Atom) (rest : List Atom) {desc : Option Bracketed} {g : Bracketed}
    {used : Nat} (ht : tupletAt (a :: rest) = some ('T', desc, g, used))
    (hi : (ratio * tupletScale desc).isIndeterminate = true) :
    eatAtoms cx (fuel + 1) ratio pos out (a :: rest) =
      (do
        let _ ← readTupletRatio cx.line desc
        warn cx.line g.span.start (.badNesting g.text)
        eatAtoms cx (fuel + 1) ratio pos out (rest.drop (used - 1))) := by
  have hi' : (ratio * Frac.make (tupletFactor desc).1 (tupletFactor desc).2).isIndeterminate =
      true := hi
  rw [eatAtoms.eq_def]
  simp only [ht]
  rw [if_neg (by decide), readTupletRatio_bind]
  simp only [hi', if_true]

/-! ## A section's notes -/

theorem Frac.ofNat_zero : (0 : Frac) = Frac.zero := rfl

theorem readNotes_reading (cx : NoteScope) (items : List Piece)
    (hswing : cx.props.meter.bind (·.swing.period) = none) :
    Always (readNotes cx items : Compiling (Eaten α × Frac)) fun r =>
      Reading cx.props (atomize items) 1 0 r.2 r.1.notes.toList r.1.decorations.toList := by
  unfold readNotes
  refine (eatAtoms_adds cx _ 1 0 {} (atomize items) List.suffix_rfl .here).bind
    fun ⟨total, out⟩ h => ?_
  obtain ⟨ns, ds, hn, hd, hr⟩ := h
  simp only [hswing]
  refine Always.pure ?_
  -- nothing was read before
  simp only [List.nil_append] at hn hd
  rw [hn, hd]
  exact hr

/-- **Timing of a section's notes.** Read without swing, a section's notes lie end to end from
`0`, and its written length is where the last one ends: the sum of their lengths. Each note is
read from an atom inside a chain of groups entered from the section's atoms, and lasts the
meter's unit times the ratio of that chain (the reduction for `( )`, the descriptor's `f/c` or
`2/3` for `T`, nothing for `D`), times the factor of its dots for a head; a `-` has no dots.
No group is entered at an indeterminate ratio. Each tuplet bracket runs from where the notes of
its group start to where they end. A `( )` or `T` group met at a ratio that would be
indeterminate is warned about and passed over, the reading going on from the same position with
the notes it had. -/
theorem readNotes_timing (cx : NoteScope) (items : List Piece)
    (hswing : cx.props.meter.bind (·.swing.period) = none) :
    Always (readNotes cx items : Compiling (Eaten α × Frac)) (fun r =>
      Reading cx.props (atomize items) 1 0 r.2 r.1.notes.toList r.1.decorations.toList ∧
        r.2 = Frac.sum (r.1.notes.toList.map (·.length))) ∧
    (∀ fuel ratio pos (out : Eaten α) g j rest, g.bracket = some .paren →
      (ratio * cx.props.reduction).isIndeterminate = true →
      eatAtoms cx fuel ratio pos out (.pair g j :: rest) =
        (do warn cx.line g.span.start (.badNesting g.text); eatAtoms cx fuel ratio pos out rest)) ∧
    (∀ fuel ratio pos (out : Eaten α) a rest desc g used,
      tupletAt (a :: rest) = some ('T', desc, g, used) →
      (ratio * tupletScale desc).isIndeterminate = true →
      eatAtoms cx (fuel + 1) ratio pos out (a :: rest) =
        (do
          let _ ← readTupletRatio cx.line desc
          warn cx.line g.span.start (.badNesting g.text)
          eatAtoms cx (fuel + 1) ratio pos out (rest.drop (used - 1)))) :=
  ⟨(readNotes_reading cx items hswing).imp fun _ h =>
      ⟨h, by rw [h.laid.stop_eq, Frac.sum, Frac.ofNat_zero]⟩,
    fun fuel ratio pos out g j rest hg hi =>
      eatAtoms_paren_indeterminate cx fuel ratio pos out g j rest hg hi,
    fun fuel ratio pos out a rest _ _ _ ht hi =>
      eatAtoms_tuplet_indeterminate cx fuel ratio pos out a rest ht hi⟩

theorem readNotes_timing_unswung :
    let cx : NoteScope := ⟨1, ⟨"1 (2 3) 4".toList.toArray, 0⟩, { meter := some ⟨3, 4, .none, []⟩ }⟩
    let items : List Piece := [.token ⟨.word, "1", ⟨0, 1⟩, false⟩,
      .pair ⟨2, 7⟩ (some .paren) true
        [[.token ⟨.word, "2", ⟨3, 4⟩, false⟩, .token ⟨.word, "3", ⟨5, 6⟩, false⟩]] "(2 3)",
      .token ⟨.word, "4", ⟨8, 9⟩, false⟩]
    cx.props.meter.bind (·.swing.period) = none ∧
      (Always (readNotes cx items : Compiling (Eaten Pitch × Frac)) (fun r =>
        Reading cx.props (atomize items) 1 0 r.2 r.1.notes.toList r.1.decorations.toList ∧
          r.2 = Frac.sum (r.1.notes.toList.map (·.length))) ∧
      (∀ fuel ratio pos (out : Eaten Pitch) g j rest, g.bracket = some .paren →
        (ratio * cx.props.reduction).isIndeterminate = true →
        eatAtoms cx fuel ratio pos out (.pair g j :: rest) =
          (do warn cx.line g.span.start (.badNesting g.text); eatAtoms cx fuel ratio pos out rest)) ∧
      (∀ fuel ratio pos (out : Eaten Pitch) a rest desc g used,
        tupletAt (a :: rest) = some ('T', desc, g, used) →
        (ratio * tupletScale desc).isIndeterminate = true →
        eatAtoms cx (fuel + 1) ratio pos out (a :: rest) =
          (do
            let _ ← readTupletRatio cx.line desc
            warn cx.line g.span.start (.badNesting g.text)
            eatAtoms cx (fuel + 1) ratio pos out (rest.drop (used - 1))))) := by
  intro cx items
  exact ⟨rfl, readNotes_timing cx items rfl⟩

end Jianpu
