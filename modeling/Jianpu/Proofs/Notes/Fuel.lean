import Mathlib
import Jianpu.Content.Notes
/-!
# The note reader has fuel enough

`eatAtoms` spends one unit of fuel on each group it enters, and passes a group over when it
has none left. `readNotes` starts it with the deepest nesting of the section's pieces, and that
is enough: every atom the reader meets nests no deeper than the fuel it has there, so it never
reaches a group with none, and any more fuel reads the same.

* `Atom.depth` — how deeply groups nest in an atom;
* `atomize_depth`, `innerAtoms_depth` — the atoms of some pieces nest no deeper than the
  pieces, and those inside a group one level less than the group;
* `eatAtoms_fuel` — fuel at least the depth of the atoms reads them as any more fuel;
* `readNotes_fuel_enough` — the reading of every section's pieces with the fuel `readNotes`
  gives it is the reading with any more.
-/

namespace Jianpu

def Atom.depth : Atom → Nat
  | .pair p _ => Piece.groupsDepth p.groups + 1
  | _ => 0

namespace Piece

theorem depth_le_groupDepth {p : Piece} : ∀ {ps : List Piece}, p ∈ ps → p.depth ≤ groupDepth ps
  | _ :: ps, h => by
    rw [groupDepth]
    rcases List.mem_cons.1 h with rfl | h
    · exact le_max_left _ _
    · exact (depth_le_groupDepth h).trans (le_max_right _ _)

theorem groupDepth_le_groupsDepth {g : List Piece} :
    ∀ {gs : List (List Piece)}, g ∈ gs → groupDepth g ≤ groupsDepth gs
  | _ :: gs, h => by
    rw [groupsDepth]
    rcases List.mem_cons.1 h with rfl | h
    · exact le_max_left _ _
    · exact (groupDepth_le_groupsDepth h).trans (le_max_right _ _)

end Piece

theorem foldl_keeps {β γ : Type} (P : γ → Prop) (g : γ → β → γ) :
    ∀ (xs : List β) (b : γ), (∀ b, ∀ x ∈ xs, P b → P (g b x)) → P b → P (xs.foldl g b)
  | [], _, _, hb => hb
  | x :: xs, b, hg, hb =>
    foldl_keeps P g xs (g b x) (fun b' x' hx' => hg b' x' (List.mem_cons_of_mem x hx'))
      (hg b x List.mem_cons_self hb)

theorem depth_push {d : Nat} {xs : Array Atom} (hxs : ∀ a ∈ xs, a.depth ≤ d) {b : Atom}
    (hb : b.depth ≤ d) : ∀ a ∈ xs.push b, a.depth ≤ d := by
  intro a ha
  rcases Array.mem_push.1 ha with ha | rfl
  · exact hxs a ha
  · exact hb

namespace Atomizer

def Within (d : Nat) (z : Atomizer) : Prop := ∀ a ∈ z.atoms, a.depth ≤ d

variable {d : Nat}

theorem within_empty : Within d {} := fun _ h => absurd h (by simp)

theorem Within.push {z : Atomizer} (hz : z.Within d) {p : Piece} (hp : p.depth ≤ d) :
    (z.push p).Within d := by
  unfold Atomizer.push
  split
  · -- a token adds characters or a string, which nest nothing
    have hchars : ∀ (cs : List (Char × Nat)) (f : Char × Nat → Atom), (∀ x, (f x).depth = 0) →
        ∀ a ∈ cs.foldl (fun xs x => xs.push (f x)) z.atoms, a.depth ≤ d := fun cs f hf =>
      foldl_keeps (fun xs : Array Atom => ∀ a ∈ xs, a.depth ≤ d) _ cs z.atoms
        (fun _ x _ hxs => depth_push hxs ((hf x).trans_le (Nat.zero_le d))) hz
    split
    · exact hchars _ _ fun _ => rfl
    · exact hchars _ _ fun _ => rfl
    · exact depth_push hz (Nat.zero_le _)
    · exact hz
  · exact depth_push hz hp

theorem Within.pushComma {z : Atomizer} (hz : z.Within d) (n : Nat) : (z.pushComma n).Within d :=
  depth_push hz (Nat.zero_le _)

theorem Within.foldl_push {z : Atomizer} (hz : z.Within d) {ps : List Piece}
    (hps : ∀ p ∈ ps, p.depth ≤ d) : (ps.foldl Atomizer.push z).Within d :=
  foldl_keeps (Within d) _ ps z (fun _ p hp hz' => hz'.push (hps p hp)) hz

end Atomizer

theorem mem_of_mem_trimEof {p : Piece} {g : List Piece} (h : p ∈ trimEof g) : p ∈ g := by
  unfold trimEof at h
  split at h
  · split at h
    · exact List.dropLast_subset _ h
    · exact h
  · exact h

theorem atomize_depth (items : List Piece) :
    ∀ a ∈ atomize items, a.depth ≤ Piece.groupDepth items := by
  intro a ha
  exact Atomizer.within_empty.foldl_push (fun p hp => Piece.depth_le_groupDepth hp) a
    (by simpa [atomize] using ha)

theorem innerAtoms_depth (g : Bracketed) :
    ∀ a ∈ innerAtoms g, a.depth ≤ Piece.groupsDepth g.groups := by
  intro a ha
  refine foldl_keeps (Atomizer.Within (Piece.groupsDepth g.groups)) _ _ _
    (fun z x hx hz => ?_) Atomizer.within_empty a (by simpa [innerAtoms] using ha)
  -- each group's pieces, after a comma for all but the first
  obtain ⟨grp, k⟩ := x
  have hgrp : grp ∈ g.groups := List.fst_mem_of_mem_zipIdx hx
  refine Atomizer.Within.foldl_push ?_ fun p hp =>
    (Piece.depth_le_groupDepth (mem_of_mem_trimEof hp)).trans
      (Piece.groupDepth_le_groupsDepth hgrp)
  split
  · exact hz
  · exact hz.pushComma _

theorem Atom.pairOf?_eq_some {a : Atom} {b : Bracket} {p : Bracketed} (h : a.pairOf? b = some p) :
    ∃ j, a = .pair p j := by
  unfold Atom.pairOf? at h
  split at h
  · rename_i p' j
    split at h
    · exact ⟨j, by rw [Option.some.injEq] at h; rw [h]⟩
    · cases h
  · cases h

/-- A tuplet's group is one of the atoms it starts. -/
theorem tupletAt_group {xs : List Atom} {l : Char} {desc : Option Bracketed} {g : Bracketed}
    {used : Nat} (h : tupletAt xs = some (l, desc, g, used)) : ∃ j, Atom.pair g j ∈ xs := by
  unfold tupletAt at h
  split at h
  · rename_i c _ _ next more
    split at h
    · split at h
      · split at h
        · obtain ⟨g', hg', hgg⟩ := Option.map_eq_some_iff.1 h
          obtain ⟨j, rfl⟩ := Atom.pairOf?_eq_some hg'
          cases hgg
          exact ⟨j, by simp⟩
        · cases h
      · cases h
      · obtain ⟨g', hg', hgg⟩ := Option.map_eq_some_iff.1 h
        obtain ⟨j, rfl⟩ := Atom.pairOf?_eq_some hg'
        cases hgg
        exact ⟨j, by simp⟩
    · cases h
  · cases h

theorem innerAtoms_depth_le {xs : List Atom} {g : Bracketed} {j : Bool} {d : Nat}
    (hxs : ∀ a ∈ xs, a.depth ≤ d + 1) (hg : Atom.pair g j ∈ xs) : ∀ a ∈ innerAtoms g, a.depth ≤ d :=
  fun a ha => (innerAtoms_depth g a ha).trans (Nat.le_of_succ_le_succ (hxs _ hg))

theorem depth_pos_of_group {xs : List Atom} {g : Bracketed} {j : Bool} {d : Nat}
    (hxs : ∀ a ∈ xs, a.depth ≤ d) (hg : Atom.pair g j ∈ xs) : 0 < d :=
  Nat.lt_of_lt_of_le (Nat.succ_pos _) (hxs _ hg)

theorem depth_drop {a : Atom} {rest : List Atom} {d : Nat} (h : ∀ x ∈ a :: rest, x.depth ≤ d)
    (k : Nat) : ∀ x ∈ rest.drop k, x.depth ≤ d :=
  fun x hx => h x (List.mem_cons_of_mem _ (List.mem_of_mem_drop hx))

variable {α : Type} [NoteHead α]

/-- **Fuel at least the depth of the atoms reads them as any more fuel.** Each group the reader
enters spends one unit and holds atoms one level less deep, so the reader never meets a group
with no fuel left. -/
theorem eatAtoms_fuel (cx : NoteScope) (fuel : Nat) (ratio pos : Frac) (out : Eaten α)
    (atoms : List Atom) : (∀ a ∈ atoms, a.depth ≤ fuel) → ∀ fuel', fuel ≤ fuel' →
      eatAtoms cx fuel' ratio pos out atoms = eatAtoms cx fuel ratio pos out atoms := by
  fun_induction eatAtoms cx fuel ratio pos out atoms
  case case1 =>
    intro _ fuel' _
    rw [eatAtoms.eq_def]
  case case2 ratio pos out a rest l desc g used f ht hD ih2 ih1 =>
    intro hdepth fuel' hle
    obtain ⟨f', rfl⟩ : ∃ f', fuel' = f' + 1 := ⟨fuel' - 1, by omega⟩
    obtain ⟨j, hg⟩ := tupletAt_group ht
    rw [eatAtoms.eq_def cx (f' + 1)]
    simp only [ht, hD, if_true]
    rw [ih2 (innerAtoms_depth_le hdepth hg) f' (by omega)]
    congr 1
    funext r
    exact ih1 r.1 r.2 (depth_drop hdepth _) (f' + 1) hle
  case case3 ratio pos out a rest l desc g used f ht hD ih3 ih2 ih1 =>
    intro hdepth fuel' hle
    obtain ⟨f', rfl⟩ : ∃ f', fuel' = f' + 1 := ⟨fuel' - 1, by omega⟩
    obtain ⟨j, hg⟩ := tupletAt_group ht
    rw [eatAtoms.eq_def cx (f' + 1)]
    simp only [ht, hD, Bool.false_eq_true, if_false]
    congr 1
    funext x
    split_ifs
    · congr 1
      funext _
      exact ih3 (depth_drop hdepth _) (f' + 1) hle
    · rw [ih2 x.1 x.2 (innerAtoms_depth_le hdepth hg) f' (by omega)]
      congr 1
      funext r
      exact ih1 x.1 x.2 r.1 r.2 (depth_drop hdepth _) (f' + 1) hle
  case case4 ratio pos out a rest l desc g used ht ih1 =>
    intro hdepth
    obtain ⟨j, hg⟩ := tupletAt_group ht
    exact absurd (depth_pos_of_group hdepth hg) (Nat.lt_irrefl 0)
  case case5 fuel ratio pos out rest unit n j note ht ih1 =>
    intro hdepth fuel' hle
    rw [eatAtoms.eq_def cx fuel']
    simp only [ht]
    exact ih1 (depth_drop hdepth 0) fuel' hle
  case case6 ratio pos out rest g j hb reduced f hi ht ih2 ih1 =>
    intro hdepth fuel' hle
    obtain ⟨f', rfl⟩ : ∃ f', fuel' = f' + 1 := ⟨fuel' - 1, by omega⟩
    have hg : Atom.pair g j ∈ Atom.pair g j :: rest := List.mem_cons_self
    have hi' : (ratio * cx.props.reduction).isIndeterminate = false := hi
    rw [eatAtoms.eq_def cx (f' + 1)]
    simp only [ht, hb, hi, hi', if_true]
    rw [ih2 (innerAtoms_depth_le hdepth hg) f' (by omega)]
    congr 1
    funext r
    exact ih1 r.1 r.2 (depth_drop hdepth 0) (f' + 1) hle
  case case7 ratio pos out rest g j hb reduced hi ht ih1 =>
    intro hdepth
    exact absurd (depth_pos_of_group hdepth List.mem_cons_self) (Nat.lt_irrefl 0)
  case case8 fuel ratio pos out rest g j hb reduced hi ht ih1 =>
    intro hdepth fuel' hle
    have hi' : (ratio * cx.props.reduction).isIndeterminate = true := hi
    rw [eatAtoms.eq_def cx fuel']
    simp only [ht, hb, hi', if_true]
    rw [ih1 (depth_drop hdepth 0) fuel' hle]
  case case9 fuel ratio pos out rest g j hb ht ih1 =>
    intro hdepth fuel' hle
    rw [eatAtoms.eq_def cx fuel']
    simp only [ht, hb, Bool.false_eq_true, if_false]
    rw [ih1 (depth_drop hdepth 0) fuel' hle]
  case case10 fuel ratio pos out rest c n j hc hd ht ih1 =>
    intro hdepth fuel' hle
    rw [eatAtoms.eq_def cx fuel']
    simp only [ht, hd, if_true]
    rw [ih1 (depth_drop hdepth 0) fuel' hle]
  case case11 fuel ratio pos out rest unit c n j hc hd ht ih1 =>
    intro hdepth fuel' hle
    rw [eatAtoms.eq_def cx fuel']
    simp only [ht, hd, Bool.false_eq_true, if_false]
    congr 1
    funext r
    exact ih1 r.1 r.2 (depth_drop hdepth _) fuel' hle
  case case12 fuel ratio pos out rest unit text span j ht ih1 =>
    intro hdepth fuel' hle
    rw [eatAtoms.eq_def cx fuel']
    simp only [ht]
    congr 1
    funext r
    exact ih1 r.1 r.2 (depth_drop hdepth _) fuel' hle

/-- **`readNotes` has fuel enough.** The reader it runs over a section's pieces, with their
deepest nesting as fuel, reads them as with any more fuel: no group is passed over for want of
it. -/
theorem readNotes_fuel_enough (cx : NoteScope) (items : List Piece) (extra : Nat) :
    (eatAtoms cx (Piece.groupDepth items + extra) 1 0 {} (atomize items) :
        Compiling (Frac × Eaten α)) =
      eatAtoms cx (Piece.groupDepth items) 1 0 {} (atomize items) :=
  eatAtoms_fuel cx _ 1 0 {} _ (atomize_depth items) _ (Nat.le_add_right _ _)

end Jianpu
