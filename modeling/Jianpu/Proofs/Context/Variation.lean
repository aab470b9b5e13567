import Mathlib
import Jianpu.Proofs.Context.Scope
/-!
# A row's summed changes agree with its running context

Read under a running context, a row's barlines change the context one after another: the
barline before each section reads a patch in the context so far, the patch is put over it,
and the section is read in what results. The row also sums up its patches into one, which is
what the fragment hands on. The two agree because putting two patches over a context one after
the other is putting their merge over it, field by field, the extras added up in order.

* `MusicProps.apply_apply` — `(c.apply p).apply q = c.apply (p.merge q)`.
* `RowScope.patchAt` — the patch a barline reads in a context; it does not depend on the
  journal.
* `RowScope.runPatches` — the patches a row's barlines read one after another.
* `readSections_running` — the properties of every section, the context after the row and the
  row's summed changes, all from the patches read.
-/

namespace Jianpu

namespace MusicProps

@[simp] theorem apply_apply (c : MusicProps) (p q : MusicPatch) :
    (c.apply p).apply q = c.apply (p.merge q) := by
  simp only [apply, MusicPatch.merge, Option.orElse_eq_orElse, Option.orElse_eq_or,
    Option.or_assoc, List.append_assoc, Option.getD_or]

theorem eq_empty_of_isEmpty {p : MusicPatch} (h : p.isEmpty = true) : p = {} := by
  obtain ⟨t, b, te, m, r, e⟩ := p
  simp only [MusicPatch.isEmpty, Bool.and_eq_true, Option.isNone_iff_eq_none,
    List.isEmpty_iff] at h
  obtain ⟨⟨⟨⟨⟨rfl, rfl⟩, rfl⟩, rfl⟩, rfl⟩, rfl⟩ := h
  rfl

theorem apply_of_isEmpty (c : MusicProps) {p : MusicPatch} (h : p.isEmpty = true) :
    c.apply p = c := by
  rw [eq_empty_of_isEmpty h]
  simp [apply]

theorem foldl_apply_eq_apply_merge (ps : List MusicPatch) (c : MusicProps) :
    ps.foldl apply c = c.apply (ps.foldl MusicPatch.merge {}) := by
  suffices h : ∀ v : MusicPatch, ps.foldl apply (c.apply v) = c.apply (ps.foldl MusicPatch.merge v) by
    simpa [apply] using h {}
  induction ps with
  | nil => intro v; rfl
  | cons p ps ih =>
    intro v
    rw [List.foldl_cons, apply_apply, ih, List.foldl_cons]

end MusicProps

theorem MusicPatch.merge_of_isEmpty (v : MusicPatch) {p : MusicPatch} (h : p.isEmpty = true) :
    v.merge p = v := by
  rw [MusicProps.eq_empty_of_isEmpty h]
  simp [MusicPatch.merge]

namespace RowScope

def patchAt (rx : RowScope) (sep : Separator) (ctx : MusicProps) : MusicPatch :=
  ((rx.variationOf sep ctx).run {}).1

theorem variationOf_patchAt (rx : RowScope) (sep : Separator) (ctx : MusicProps) :
    Always (rx.variationOf sep ctx) (· = rx.patchAt sep ctx) :=
  Steady.always_eq fun j j' =>
    MusicPatch.Agree.true_iff.1 (@variationOf_agree rx sep true ctx ctx (fun _ => rfl) j j')

/-- The patches that barlines read one after another, each in the context the ones before it
left. -/
def runPatches (rx : RowScope) : MusicProps → List Separator → List MusicPatch
  | _, [] => []
  | ctx, sep :: seps =>
    let p := rx.patchAt sep ctx
    p :: rx.runPatches (ctx.apply p) seps

theorem runPatches_append (rx : RowScope) (ctx : MusicProps) (seps seps' : List Separator) :
    rx.runPatches ctx (seps ++ seps') =
      rx.runPatches ctx seps ++ rx.runPatches ((rx.runPatches ctx seps).foldl MusicProps.apply ctx) seps' := by
  induction seps generalizing ctx with
  | nil => rfl
  | cons sep seps ih => simp [runPatches, ih]

end RowScope

variable {α : Type}

/-- A row read under the running context `ctx`, some sections in: the sections' properties are
the contexts after each patch their barlines read, the context is the one after all of them,
and the changes are their merge. -/
def Running (rx : RowScope) (ctx : MusicProps) (st : List (Section α) × MusicProps × MusicPatch) :
    Prop :=
  st.1.map (·.props) = ((rx.runPatches ctx (st.1.map (·.separators.before))).scanl
      MusicProps.apply ctx).tail ∧
    st.2.1 = (rx.runPatches ctx (st.1.map (·.separators.before))).foldl MusicProps.apply ctx ∧
    st.2.2 = (rx.runPatches ctx (st.1.map (·.separators.before))).foldl MusicPatch.merge {}

theorem running_nil (rx : RowScope) (ctx : MusicProps) : Running rx ctx (([] : List (Section α)), ctx, {}) :=
  ⟨rfl, rfl, rfl⟩

/-- One more section, read in the context so far with the patch its barline reads there put
over it. -/
theorem Running.snoc {rx : RowScope} {ctx c c' : MusicProps} {out : List (Section α)}
    {v v' : MusicPatch} (h : Running rx ctx (out, c, v)) {s : Section α} (hs : s.props = c')
    (hc : c' = c.apply (rx.patchAt s.separators.before c))
    (hv : v' = v.merge (rx.patchAt s.separators.before c)) :
    Running rx ctx (out ++ [s], c', v') := by
  obtain ⟨hout, hc₀, hv₀⟩ := h
  dsimp only at hout hc₀ hv₀
  have hps : rx.runPatches ctx ((out ++ [s]).map (·.separators.before)) =
      rx.runPatches ctx (out.map (·.separators.before)) ++ [rx.patchAt s.separators.before c] := by
    rw [List.map_append, RowScope.runPatches_append, ← hc₀]
    rfl
  refine ⟨?_, ?_, ?_⟩
  · rw [hps, List.map_append, hout, List.scanl_append, ← hc₀]
    simp [hs, hc]
  · rw [hps, List.foldl_append, ← hc₀, hc]
    rfl
  · rw [hps, List.foldl_append, ← hv₀, hv]
    rfl

/-- The properties of the `k`-th section: the context with the first `k + 1` patches put over
it. -/
theorem Running.props_of_getElem? {rx : RowScope} {ctx : MusicProps}
    {st : List (Section α) × MusicProps × MusicPatch} (h : Running rx ctx st) {k : Nat}
    {s : Section α} (hs : st.1[k]? = some s) :
    s.props = ((rx.runPatches ctx (st.1.map (·.separators.before))).take (k + 1)).foldl
      MusicProps.apply ctx := by
  have hk := congrArg (·[k]?) h.1
  simp only [List.getElem?_map, hs, Option.map_some, List.getElem?_tail, List.getElem?_scanl] at hk
  split at hk
  · exact Option.some.inj hk
  · cases hk

variable [NoteHead α]

theorem readSections_running_run (rx : RowScope) (items : List Piece) (ctx : MusicProps) :
    Always (readSections rx items (.running ctx) : Compiling (RowSections α)) fun rs =>
      Running rx ctx (rs.sections, rs.finalProps, rs.variation) := by
  unfold readSections
  refine Always.any.bind fun seps _ => ?_
  refine (Always.foldlM_keeps (Running rx ctx) (fun st gap hst => ?_) _ _ (running_nil rx ctx)).bind
    fun res hres => Always.pure hres
  obtain ⟨out, c, v⟩ := st
  obtain ⟨⟨a, b⟩, k⟩ := gap
  dsimp only
  refine (rx.variationOf_patchAt _ c).bind fun p hp => ?_
  subst hp
  -- the section goes in whatever its body and serial; an empty patch changes nothing
  split
  · rename_i hempty
    simp only [pure_bind]
    exact Always.any.bind fun _ _ => Always.any.bind fun _ _ => Always.pure
      (hst.snoc rfl (MusicProps.apply_of_isEmpty c hempty).symm
        (MusicPatch.merge_of_isEmpty v hempty).symm)
  · simp only [pure_bind]
    exact Always.any.bind fun _ _ => Always.any.bind fun _ _ => Always.pure (hst.snoc rfl rfl rfl)

/-- **A row's summed changes agree with its running context.** Putting two patches over a
context one after the other is putting their merge over it. So a row read under a running
context `ctx`, whose barlines read the patches `p₀, p₁, …` one after another, reads its `k`-th
section under `ctx` with `p₀, …, p_k` put over it in turn; its changes are the merge of all the
patches, and the context after it is `ctx` with its changes put over it. -/
theorem readSections_running (rx : RowScope) (items : List Piece) (ctx : MusicProps) :
    (∀ (c : MusicProps) (p q : MusicPatch), (c.apply p).apply q = c.apply (p.merge q)) ∧
    Always (readSections rx items (.running ctx) : Compiling (RowSections α)) fun rs =>
      rs.finalProps = ctx.apply rs.variation ∧
      rs.variation =
        (rx.runPatches ctx (rs.sections.map (·.separators.before))).foldl MusicPatch.merge {} ∧
      ∀ k s, rs.sections[k]? = some s →
        s.props = ((rx.runPatches ctx (rs.sections.map (·.separators.before))).take (k + 1)).foldl
          MusicProps.apply ctx := by
  refine ⟨MusicProps.apply_apply, (readSections_running_run rx items ctx).imp fun rs h => ?_⟩
  have hprops := fun k s (hs : rs.sections[k]? = some s) => h.props_of_getElem? hs
  obtain ⟨-, hc, hv⟩ := h
  dsimp only at hc hv
  refine ⟨?_, hv, hprops⟩
  rw [hc, hv]
  exact MusicProps.foldl_apply_eq_apply_merge _ ctx

end Jianpu
