import Mathlib
import Jianpu.Issue
/-!
# Steps that raise known issues

A compiling step that returns one value and raises one list of issues whatever the journal
holds: `Yields x a w`. Most readers of a line are such steps, and what they return and report
is then said of `a` and `w` alone.

* `Yields` — with `pure`, `warn`, `warn_then`, `bind`, `map`, `bind_pure`, `foldlM`, `mapM`,
  `forIn_yield` and `filterMapM_of`.
-/

namespace Jianpu

/-- Whatever the journal, `x` returns `a` and raises the issues `w` after those raised
before. -/
def Yields {α : Type} (x : Compiling α) (a : α) (w : List Issue) : Prop :=
  ∀ j, x.run j = (a, { j with issues := j.issues ++ w.toArray })

namespace Yields

variable {α β γ : Type} {x : Compiling α} {a : α} {w : List Issue}

theorem congr {w' : List Issue} (h : Yields x a w) (hw : w = w') : Yields x a w' := hw ▸ h

theorem pure (a : α) : Yields (Pure.pure a : Compiling α) a [] := fun j => by
  simp
  rfl

theorem warn (line index : Nat) (problem : Problem) :
    Yields (Jianpu.warn line index problem) () [⟨line, index, .warning, problem⟩] := fun _ => rfl

theorem warn_then (line index : Nat) (problem : Problem) (a : α) :
    Yields (do Jianpu.warn line index problem; Pure.pure a : Compiling α) a
      [⟨line, index, .warning, problem⟩] := fun j => by
  show (Pure.pure a : Compiling α).run ((Jianpu.warn line index problem).run j).2 = _
  rw [warn line index problem j]
  rfl

theorem bind {f : α → Compiling β} {b : β} {w' : List Issue}
    (hx : Yields x a w) (hf : Yields (f a) b w') : Yields (x >>= f) b (w ++ w') := fun j => by
  show (f (x.run j).1).run (x.run j).2 = _
  rw [hx j, hf]
  simp [Array.append_assoc]

theorem map (g : α → β) (hx : Yields x a w) : Yields (g <$> x) (g a) w := fun j => by
  rw [StateT.run_map, hx j]
  rfl

theorem bind_pure {g : α → β} {b : β} (hx : Yields x a w) (hb : g a = b) :
    Yields (x >>= fun a => Pure.pure (g a)) b w := fun j => by
  show (Pure.pure (g (x.run j).1) : Compiling β).run (x.run j).2 = _
  rw [hx j, hb]
  rfl

theorem foldlM {f : β → α → Compiling β} {g : β → α → β} {w : α → List Issue}
    (hf : ∀ b a, Yields (f b a) (g b a) (w a)) :
    ∀ (l : List α) (b : β), Yields (l.foldlM f b) (l.foldl g b) (l.flatMap w)
  | [], b => by simpa using Yields.pure b
  | a :: l, b => by
    rw [List.foldlM_cons, List.foldl_cons, List.flatMap_cons]
    exact (hf b a).bind (foldlM hf l (g b a))

theorem mapM_list {f : α → Compiling β} {g : α → β} {w : α → List Issue}
    (hf : ∀ a, Yields (f a) (g a) (w a)) :
    ∀ l : List α, Yields (l.mapM f) (l.map g) (l.flatMap w)
  | [] => by simpa using Yields.pure ([] : List β)
  | a :: l => by
    rw [List.mapM_cons, List.map_cons, List.flatMap_cons]
    exact Yields.bind (hf a) (Yields.bind_pure (mapM_list hf l) rfl)

theorem mapM_array {f : α → Compiling β} {g : α → β} {w : α → List Issue}
    (hf : ∀ a, Yields (f a) (g a) (w a)) (xs : Array α) :
    Yields (xs.mapM f) (xs.map g) (xs.toList.flatMap w) := by
  have hmap : xs.map g = (xs.toList.map g).toArray := by
    rw [← Array.toList_map, Array.toArray_toList]
  rw [Array.mapM_eq_mapM_toList, hmap]
  exact Yields.map List.toArray (mapM_list hf xs.toList)

theorem forIn_yield {f : α → β → Compiling (ForInStep β)} {g : β → α → β}
    {w : α → List Issue} (hf : ∀ a b, Yields (f a b) (.yield (g b a)) (w a)) :
    ∀ (l : List α) (b : β), Yields (forIn l b f) (l.foldl g b) (l.flatMap w)
  | [], b => by simpa using Yields.pure b
  | a :: l, b => by
    rw [List.forIn_cons, List.foldl_cons, List.flatMap_cons]
    exact Yields.bind (hf a b) (forIn_yield hf l (g b a))

/-- Steps each known to return and raise something that `P` accounts for, run over a list and
the items they return kept: item by item accounted, their results kept in order, their issues
raised in order. -/
theorem filterMapM_of {f : α → Compiling (Option β)} {P : α → Option β → List Issue → Prop}
    (hf : ∀ a, ∃ r w, Yields (f a) r w ∧ P a r w) :
    ∀ l : List α, ∃ outs : List (Option β × List Issue),
      List.Forall₂ (fun a o => Yields (f a) o.1 o.2 ∧ P a o.1 o.2) l outs ∧
      Yields (l.filterMapM f) (outs.filterMap (·.1)) (outs.flatMap (·.2))
  | [] => ⟨[], .nil, by simpa using Yields.pure ([] : List β)⟩
  | a :: l => by
    obtain ⟨r, w, hy, hp⟩ := hf a
    obtain ⟨outs, hall, hrest⟩ := filterMapM_of hf l
    refine ⟨(r, w) :: outs, .cons ⟨hy, hp⟩ hall, ?_⟩
    rw [List.filterMapM_cons, List.flatMap_cons]
    refine Yields.bind hy ?_
    cases r with
    | none => simpa only [List.filterMap_cons_none] using hrest
    | some b => exact Yields.bind_pure hrest (by simp)

end Yields

end Jianpu
