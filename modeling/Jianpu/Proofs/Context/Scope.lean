import Mathlib
import Jianpu.Proofs.Context.Runs
import Jianpu.Proofs.LineTree.Building
/-!
# How far a part's properties reach

A part's `Pi` line sets the context its rows are read under. The other parts of its fragment
are read under the fragment's context alone. A fragment hands the next one its own context
with the changes of its last varying part put over it. A barline's shift of the
transposition is written down as the transposition it reaches, measured from the part's
context. So a part's properties reach later fragments through the transposition, and
through no other field.

Two runs are compared field by field. `MusicProps.Agree exact c c'` says that two contexts
agree on every field, and on the transposition as well when `exact` holds.
`MusicPatch.Agree` says the same of two patches that set the same fields. A `ContextRel` is
a relation between the contexts of two runs that the barlines of a row keep.

* `readSections_agree` — a row read from agreeing sources gives agreeing properties, final
  context and changes.
* `typedPart_agree`, `typedFragment_agree` — the same for a part and for a fragment.
* `typedPart_variation_agree` — what a part's barlines change does not depend on the
  context the part is read under, except for the transposition.
* `part_props_reach_later_fragments_by_transpose` — two articles that differ in one part,
  but not in that part's `N` row.
-/

namespace Jianpu

/-- Two contexts agree on every field, and on the transposition too when `exact`. -/
structure MusicProps.Agree (exact : Bool) (c c' : MusicProps) : Prop where
  transpose : exact → c.transpose = c'.transpose
  base : c.base = c'.base
  tempo : c.tempo = c'.tempo
  meter : c.meter = c'.meter
  reduction : c.reduction = c'.reduction
  extras : c.extras = c'.extras

/-- Two patches set the same fields to the same values; the transposition to the same value
only when `exact`. -/
structure MusicPatch.Agree (exact : Bool) (p p' : MusicPatch) : Prop where
  transpose : exact → p.transpose = p'.transpose
  setsTranspose : p.transpose.isSome = p'.transpose.isSome
  base : p.base = p'.base
  tempo : p.tempo = p'.tempo
  meter : p.meter = p'.meter
  reduction : p.reduction = p'.reduction
  extras : p.extras = p'.extras

namespace MusicPatch.Agree

variable {exact : Bool} {p p' q q' : MusicPatch}

theorem refl (exact : Bool) (p : MusicPatch) : Agree exact p p :=
  ⟨fun _ => rfl, rfl, rfl, rfl, rfl, rfl, rfl⟩

theorem true_iff : Agree true p p' ↔ p = p' := by
  constructor
  · rintro ⟨ht, -, hb, hte, hm, hr, he⟩
    cases p
    cases p'
    simp_all
  · rintro rfl
    exact refl true p

theorem isEmpty_eq (h : Agree exact p p') : p.isEmpty = p'.isEmpty := by
  simp only [MusicPatch.isEmpty, ← Option.not_isSome, h.setsTranspose, h.base, h.tempo, h.meter,
    h.reduction, h.extras]

theorem merge (hp : Agree exact p p') (hq : Agree exact q q') :
    Agree exact (p.merge q) (p'.merge q') where
  transpose he := by simp only [MusicPatch.merge, hp.transpose he, hq.transpose he]
  setsTranspose := by
    simp only [MusicPatch.merge, Option.orElse_eq_orElse, Option.orElse_eq_or, Option.isSome_or,
      hp.setsTranspose, hq.setsTranspose]
  base := by simp only [MusicPatch.merge, hp.base, hq.base]
  tempo := by simp only [MusicPatch.merge, hp.tempo, hq.tempo]
  meter := by simp only [MusicPatch.merge, hp.meter, hq.meter]
  reduction := by simp only [MusicPatch.merge, hp.reduction, hq.reduction]
  extras := by simp only [MusicPatch.merge, hp.extras, hq.extras]

theorem unless_isEmpty (hv : Agree exact p p') (hq : Agree exact q q') :
    Agree exact (if q.isEmpty then p else q) (if q'.isEmpty then p' else q') := by
  rw [hq.isEmpty_eq]
  split
  · exact hv
  · exact hq

end MusicPatch.Agree

namespace MusicProps.Agree

variable {exact : Bool} {c c' : MusicProps}

theorem refl (exact : Bool) (c : MusicProps) : Agree exact c c :=
  ⟨fun _ => rfl, rfl, rfl, rfl, rfl, rfl⟩

theorem true_iff : Agree true c c' ↔ c = c' := by
  constructor
  · rintro ⟨ht, hb, hte, hm, hr, he⟩
    cases c
    cases c'
    simp_all
  · rintro rfl
    exact refl true c

theorem apply {p p' : MusicPatch} (hc : Agree exact c c') (hp : MusicPatch.Agree exact p p') :
    Agree exact (c.apply p) (c'.apply p') where
  transpose he := by simp only [MusicProps.apply, hc.transpose he, hp.transpose he]
  base := by simp only [MusicProps.apply, hc.base, hp.base]
  tempo := by simp only [MusicProps.apply, hc.tempo, hp.tempo]
  meter := by simp only [MusicProps.apply, hc.meter, hp.meter]
  reduction := by simp only [MusicProps.apply, hc.reduction, hp.reduction]
  extras := by simp only [MusicProps.apply, hc.extras, hp.extras]

theorem forall₂_true_iff {l l' : List MusicProps} : List.Forall₂ (Agree true) l l' ↔ l = l' := by
  constructor
  · intro h
    rw [← List.forall₂_eq_eq_eq]
    exact h.imp fun _ _ h => true_iff.1 h
  · rintro rfl
    exact List.forall₂_same.2 fun c _ => refl true c

end MusicProps.Agree

/-- A relation between the contexts of two runs that the barlines of a row keep: it tells
the transposition when `exact`, and agreeing patches put over related contexts keep it. -/
structure ContextRel (exact : Bool) where
  rel : MusicProps → MusicProps → Prop
  transpose : ∀ {c c'}, rel c c' → exact → c.transpose = c'.transpose
  apply : ∀ {c c' p p'}, rel c c' → MusicPatch.Agree exact p p' → rel (c.apply p) (c'.apply p')

namespace ContextRel

def agree (exact : Bool) : ContextRel exact :=
  ⟨MusicProps.Agree exact, fun h => h.transpose, fun hc hp => hc.apply hp⟩

def any : ContextRel false := ⟨fun _ _ => True, fun _ h => absurd h Bool.false_ne_true, fun _ _ => trivial⟩

end ContextRel

/-! ## A barline's changes -/

theorem RowScope.variationOf_agree (rx : RowScope) (sep : Separator) {exact : Bool}
    {ctx ctx' : MusicProps} (ht : exact → ctx.transpose = ctx'.transpose) :
    Always₂ (rx.variationOf sep ctx) (rx.variationOf sep ctx') (MusicPatch.Agree exact) := by
  unfold RowScope.variationOf
  refine Always₂.foldlM _ _ (fun p p' attr hattr h => ?_) _ _ (MusicPatch.Agree.refl _ _)
  clear hattr
  -- only a shift of the transposition reads the context, and only its transposition
  cases attr
  case meter m => exact Always₂.pure { h with meter := rfl }
  case tempo t => exact Always₂.pure { h with tempo := rfl }
  case shift s =>
    cases s with
    | tuning b => exact Always₂.pure { h with base := rfl }
    | transpose s =>
      have hclamp : Always₂
          (PropItem.clampTranspose rx.line sep.span.start (p.transpose.getD ctx.transpose + s))
          (PropItem.clampTranspose rx.line sep.span.start (p'.transpose.getD ctx'.transpose + s))
          fun v v' => exact → v = v' := by
        intro j j' he
        rw [h.transpose he, ht he]
        exact PropItem.clampTranspose_steady _ _ _ j j'
      exact hclamp.bind fun v v' hv => Always₂.pure
        { h with transpose := fun he => by simp only [hv he], setsTranspose := rfl }
  all_goals exact Always₂.pure h

/-! ## A row -/

/-- Where two runs read a row's properties from, related by `C`. -/
inductive PropsSource.Agree (C : MusicProps → MusicProps → Prop) : PropsSource → PropsSource → Prop
  | running {c c' : MusicProps} : C c c' → PropsSource.Agree C (.running c) (.running c')
  | track {t t' : List MusicProps} {f f' : MusicProps} : List.Forall₂ C t t' → C f f' →
      PropsSource.Agree C (.track t f) (.track t' f')

section

variable {β γ : Type} {R : β → γ → Prop} {t : List β} {t' : List γ} {f : β} {f' : γ}

theorem forall₂_getElem (h : List.Forall₂ R t t') (i : Nat) (hi : i < t.length)
    (hi' : i < t'.length) : R t[i] t'[i] := by
  simpa only [List.get_eq_getElem] using h.get hi hi'

theorem forall₂_getLast? (h : List.Forall₂ R t t') (hf : R f f') :
    R (t.getLast?.getD f) (t'.getLast?.getD f') := by
  have hlen := h.length_eq
  rw [List.getLast?_eq_getElem?, List.getLast?_eq_getElem?, ← hlen]
  rcases Nat.lt_or_ge 0 t.length with hpos | hzero
  · rw [List.getElem?_eq_getElem (by omega), List.getElem?_eq_getElem (by omega)]
    exact forall₂_getElem h _ (by omega) (by omega)
  · rw [List.getElem?_eq_none (by omega), List.getElem?_eq_none (by omega)]
    exact hf

/-- Taking the `k`-th item of related lists, else their last, else related fallbacks, gives
related items. -/
theorem forall₂_pick (h : List.Forall₂ R t t') (hf : R f f') (k : Nat) :
    R ((t[k]? <|> t.getLast?).getD f) ((t'[k]? <|> t'.getLast?).getD f') := by
  have hlen := h.length_eq
  by_cases hk : k < t.length
  · rw [List.getElem?_eq_getElem hk, List.getElem?_eq_getElem (hlen ▸ hk)]
    exact forall₂_getElem h k hk (hlen ▸ hk)
  · rw [List.getElem?_eq_none (by omega), List.getElem?_eq_none (by omega)]
    exact forall₂_getLast? h hf

end

theorem forall₂_props_snoc {α : Type} {C : MusicProps → MusicProps → Prop} {out out' : List (Section α)}
    {s s' : Section α} (h : List.Forall₂ C (out.map (·.props)) (out'.map (·.props)))
    (hs : C s.props s'.props) :
    List.Forall₂ C ((out ++ [s]).map (·.props)) ((out' ++ [s']).map (·.props)) := by
  simpa only [List.map_append, List.map_cons, List.map_nil] using
    List.rel_append h (List.Forall₂.cons hs List.Forall₂.nil)

variable {α : Type} [NoteHead α]

/-- **A row read from agreeing sources.** Whatever the journals, the sections' properties,
the context after the last barline and what the barlines changed agree. -/
theorem readSections_agree {exact : Bool} (R : ContextRel exact) (rx : RowScope)
    (items : List Piece) {src src' : PropsSource} (hs : PropsSource.Agree R.rel src src') :
    Always₂ (readSections rx items src : Compiling (RowSections α))
      (readSections rx items src' : Compiling (RowSections α)) fun r r' => List.Forall₂ R.rel (r.sections.map (·.props)) (r'.sections.map (·.props)) ∧
        R.rel r.finalProps r'.finalProps ∧ MusicPatch.Agree exact r.variation r'.variation := by
  unfold readSections
  simp only [List.size_toArray]
  -- the separators are read alike in both runs
  refine Always₂.bind (Steady.mapM _ fun slotk _ => ?_) fun seps seps' hseps => ?_
  · obtain ⟨slot, k⟩ := slotk
    cases slot with
    | some run => exact rx.separator_steady run _ _
    | none => exact Steady.pure _
  subst hseps
  let V := fun (st st' : List (Section α) × MusicProps × MusicPatch) =>
    List.Forall₂ R.rel (st.1.map (·.props)) (st'.1.map (·.props)) ∧ R.rel st.2.1 st'.2.1 ∧
      MusicPatch.Agree exact st.2.2 st'.2.2
  refine (Always₂.foldlM V _ (fun st st' gap _ hst => ?_) _ _ ?_).bind fun res res' hres => ?_
  · obtain ⟨out, ctx, v⟩ := st
    obtain ⟨out', ctx', v'⟩ := st'
    obtain ⟨hout, hctx, hv⟩ := hst
    -- the properties the section is read with, then any body and serial
    cases hs with
    | track htr hf =>
      simp only [pure_bind]
      exact Always₂.any.bind fun _ _ _ => Always₂.any.bind fun _ _ _ =>
        Always₂.pure ⟨forall₂_props_snoc hout (forall₂_pick htr hf _), hctx, hv⟩
    | running hc =>
      refine (rx.variationOf_agree _ (R.transpose hctx)).bind fun p p' hp => ?_
      rw [hp.isEmpty_eq]
      split
      · simp only [pure_bind]
        exact Always₂.any.bind fun _ _ _ => Always₂.any.bind fun _ _ _ =>
          Always₂.pure ⟨forall₂_props_snoc hout hctx, hctx, hv⟩
      · simp only [pure_bind]
        exact Always₂.any.bind fun _ _ _ => Always₂.any.bind fun _ _ _ =>
          Always₂.pure ⟨forall₂_props_snoc hout (R.apply hctx hp), R.apply hctx hp, hv.merge hp⟩
  · cases hs with
    | track htr hf => exact ⟨List.Forall₂.nil, hf, MusicPatch.Agree.refl _ _⟩
    | running hc => exact ⟨List.Forall₂.nil, hc, MusicPatch.Agree.refl _ _⟩
  · obtain ⟨hout, hctx, hv⟩ := hres
    cases hs with
    | track htr hf =>
      exact Always₂.pure ⟨hout, forall₂_getLast? htr hf, hv⟩
    | running hc => exact Always₂.pure ⟨hout, hctx, hv⟩

/-- Two rows whose sections' properties, final contexts and changes agree. -/
structure NoteRow.Agree {exact : Bool} (R : ContextRel exact) (r r' : NoteRow α) : Prop where
  props : List.Forall₂ R.rel (r.sections.map (·.props)) (r'.sections.map (·.props))
  final : R.rel r.finalProps r'.finalProps
  variation : MusicPatch.Agree exact r.variation r'.variation

theorem GroupedLine.noteRow_agree {exact : Bool} (R : ContextRel exact) (g : GroupedLine)
    {src src' : PropsSource} (hs : PropsSource.Agree R.rel src src') :
    Always₂ (g.noteRow src : Compiling (NoteRow α)) (g.noteRow src' : Compiling (NoteRow α))
      (NoteRow.Agree R) := by
  unfold GroupedLine.noteRow
  exact (readSections_agree R _ _ hs).bind fun _ _ h => Always₂.pure ⟨h.1, h.2.1, h.2.2⟩

/-! ## Lines, parts and fragments -/

/-- The properties of the sections a line holds, in order; none for a line without a row. -/
def LineContent.sectionProps : LineContent → List MusicProps
  | .notes r => r.sections.map (·.props)
  | .chords r => r.sections.map (·.props)
  | .annotations r => r.sections.map (·.props)
  | .force r => r.sections.map (·.props)
  | _ => []

def TypedLine.PropsRel (C : MusicProps → MusicProps → Prop) (l l' : TypedLine) : Prop :=
  List.Forall₂ C l.content.sectionProps l'.content.sectionProps

namespace LineTree

def linesProps (t : LineTree TypedLine) : List MusicProps :=
  t.lines.flatMap (·.content.sectionProps)

def partProps (t : LineTree TypedLine) : List MusicProps :=
  t.linesProps ++ t.children.flatMap linesProps

def fragmentProps (t : LineTree TypedLine) : List MusicProps :=
  t.linesProps ++ t.children.flatMap partProps

end LineTree

theorem forall₂_flatMap {β γ : Type} {C : MusicProps → MusicProps → Prop}
    {f : β → List MusicProps} {g : γ → List MusicProps} {xs : List β} {ys : List γ}
    (h : List.Forall₂ (fun x y => List.Forall₂ C (f x) (g y)) xs ys) :
    List.Forall₂ C (xs.flatMap f) (ys.flatMap g) := by
  induction h with
  | nil => exact List.Forall₂.nil
  | cons hxy _ ih =>
    rw [List.flatMap_cons, List.flatMap_cons]
    exact List.rel_append hxy ih

section

variable {exact : Bool} (R : ContextRel exact) (hdef : R.rel {} {})
include hdef

/-- A line read without a context reads alike in both runs, its rows from the default
context. -/
theorem GroupedLine.readPlain_agree (g : GroupedLine) :
    Always₂ g.readPlain g.readPlain fun c c' =>
      List.Forall₂ R.rel c.sectionProps c'.sectionProps := by
  unfold GroupedLine.readPlain
  simp only []
  -- a row is read from the default context; the other lines hold no sections
  split
  all_goals first
    | exact Always₂.pure List.Forall₂.nil
    | exact Always₂.map Always₂.any fun _ _ _ => List.Forall₂.nil
    | exact (g.noteRow_agree R (.running hdef)).map fun _ _ h => h.props


theorem LineTree.typedVerse_agree {ctx ctx' : MusicProps} (hc : R.rel ctx ctx')
    (t : LineTree GroupedLine) :
    Always₂ (typedVerse ctx t) (typedVerse ctx' t) fun v v' =>
      List.Forall₂ R.rel v.linesProps v'.linesProps := by
  unfold typedVerse
  refine Always₂.bind (Always₂.mapM _ fun g _ => ?_ : Always₂ _ _ (List.Forall₂ (TypedLine.PropsRel R.rel)))
    fun ls ls' hls => Always₂.pure (forall₂_flatMap hls)
  split
  · exact (g.noteRow_agree R (.running hc)).map fun _ _ h => h.props
  · exact (g.readPlain_agree R hdef).map fun _ _ h => h


/-- **A part read under related contexts.** Its sections' properties are related one by
one, and what its barlines change agrees. -/
theorem LineTree.typedPart_agree {c c' : MusicProps} (hc : R.rel c c') (t : LineTree GroupedLine) :
    Always₂ (typedPart c t) (typedPart c' t) fun r r' =>
      List.Forall₂ R.rel r.1.partProps r'.1.partProps ∧ MusicPatch.Agree exact r.2 r'.2 := by
  unfold typedPart
  simp only []
  have hctx := R.apply hc (MusicPatch.Agree.refl exact (t.patchOf "Pi"))
  -- the `N` row first, read in both runs or in neither
  split
  on_goal 1 =>
    refine Always₂.bind (Always₂.map (GroupedLine.noteRow_agree R _ (.running hctx))
      fun _ _ h => Option.Rel.some h) fun n n' hn => ?_
  on_goal 2 =>
    refine Always₂.bind (Always₂.pure (Option.Rel.none :
      Option.Rel (NoteRow.Agree R) (none : Option (NoteRow Pitch)) none)) fun n n' hn => ?_
  -- then the other lines, the chord, annotation and force rows following the `N` row
  all_goals
    have htrack : List.Forall₂ R.rel ((n.map (·.sections.map (·.props))).getD [])
        ((n'.map (·.sections.map (·.props))).getD []) := by
      cases hn with
      | some h => exact h.props
      | none => exact List.Forall₂.nil
    refine Always₂.bind (Always₂.mapM _ fun gi _ => ?_ :
      Always₂ _ _ (List.Forall₂ (TypedLine.PropsRel R.rel))) fun ls ls' hls => ?_
    · split
      · split
        · cases hn with
          | some h => exact Always₂.pure h.props
          | none => exact (GroupedLine.noteRow_agree R _ (.running hctx)).map fun _ _ h => h.props
        · exact (GroupedLine.readPlain_agree R hdef _).map fun _ _ h => h
      all_goals first
        | exact (GroupedLine.noteRow_agree R _ (.track htrack hctx)).map fun _ _ h => h.props
        | exact (GroupedLine.readPlain_agree R hdef _).map fun _ _ h => h
    · refine Always₂.bind (Always₂.mapM _ fun v _ => typedVerse_agree R hdef hctx v)
        fun vs vs' hvs => Always₂.pure ⟨List.rel_append (forall₂_flatMap hls) (forall₂_flatMap hvs), ?_⟩
      cases hn with
      | some h => exact h.variation
      | none => exact MusicPatch.Agree.refl _ _


/-- **A fragment read from related contexts.** Its sections' properties are related one by
one, and so are the contexts it hands on. -/
theorem LineTree.typedFragment_agree {ctx ctx' : MusicProps} (hc : R.rel ctx ctx')
    (t : LineTree GroupedLine) :
    Always₂ (typedFragment ctx t) (typedFragment ctx' t) fun r r' =>
      List.Forall₂ R.rel r.1.fragmentProps r'.1.fragmentProps ∧ R.rel r.2 r'.2 := by
  unfold typedFragment plainLines
  have hfrag := R.apply hc (MusicPatch.Agree.refl exact (t.patchOf "P"))
  refine Always₂.bind (Always₂.mapM _ fun g _ => (g.readPlain_agree R hdef).map fun _ _ h => h :
    Always₂ _ _ (List.Forall₂ (TypedLine.PropsRel R.rel))) fun ls ls' hls => ?_
  -- the parts in turn, each under the fragment's context; the last change that is not empty
  let V := fun (st st' : List (LineTree TypedLine) × MusicPatch) =>
    List.Forall₂ (fun p p' => List.Forall₂ R.rel p.partProps p'.partProps) st.1 st'.1 ∧
      MusicPatch.Agree exact st.2 st'.2
  refine (Always₂.foldlM V _ (fun st st' part _ hst => ?_) _ _
    ⟨List.Forall₂.nil, MusicPatch.Agree.refl _ _⟩).bind fun res res' hres => ?_
  · refine (typedPart_agree R hdef hfrag part).bind fun ⟨p, pv⟩ ⟨p', pv'⟩ hp => ?_
    obtain ⟨hprops, hpv⟩ := hp
    exact Always₂.pure ⟨List.rel_append hst.1 (List.Forall₂.cons hprops List.Forall₂.nil),
      hst.2.unless_isEmpty hpv⟩
  · exact Always₂.pure ⟨List.rel_append (forall₂_flatMap hls) (forall₂_flatMap hres.1),
      R.apply hfrag hres.2⟩

end

/-- What a part's barlines change agrees, whatever contexts the part is read under and
whatever else differs in it, as long as its `N` row is the same. -/
theorem LineTree.typedPart_variation_agree (c c' : MusicProps) {t t' : LineTree GroupedLine}
    (hN : t.unique "N" = t'.unique "N") :
    Always₂ (typedPart c t) (typedPart c' t') fun r r' => MusicPatch.Agree false r.2 r'.2 := by
  unfold typedPart
  simp only []
  have hu : ∀ u : LineTree GroupedLine,
      ((u.uniqueLines.lookup "N").bind fun i => u.lines[i]?) = u.unique "N" := fun _ => rfl
  rw [hu t, hu t', ← hN]
  -- the `N` row is read in both runs or in neither; the rest of the part does not matter
  split
  on_goal 1 =>
    refine Always₂.bind (Always₂.map (GroupedLine.noteRow_agree ContextRel.any _
      (.running trivial)) fun _ _ h => Option.Rel.some h) fun n n' hn => ?_
  on_goal 2 =>
    refine Always₂.bind (Always₂.pure (Option.Rel.none :
      Option.Rel (NoteRow.Agree ContextRel.any) (none : Option (NoteRow Pitch)) none))
      fun n n' hn => ?_
  all_goals
    refine Always₂.any.bind fun _ _ _ => Always₂.any.bind fun _ _ _ => Always₂.pure ?_
    cases hn with
    | some h => exact h.variation
    | none => exact MusicPatch.Agree.refl _ _

theorem LineTree.typedPart_same (c : MusicProps) (t : LineTree GroupedLine) :
    Always₂ (typedPart c t) (typedPart c t) fun r r' =>
      r.1.partProps = r'.1.partProps ∧ r.2 = r'.2 :=
  (typedPart_agree (ContextRel.agree true) (MusicProps.Agree.refl _ _)
    (MusicProps.Agree.refl true c) t).imp fun _ _ h =>
    ⟨MusicProps.Agree.forall₂_true_iff.1 h.1, MusicPatch.Agree.true_iff.1 h.2⟩

theorem LineTree.patchOf_congr {t t' : LineTree GroupedLine} (hl : t'.lines = t.lines)
    (hu : t'.uniqueLines = t.uniqueLines) (head : String) : t'.patchOf head = t.patchOf head := by
  simp only [patchOf, unique, hl, hu]

/-- Two fragments read alike, line by line and part by part, but for the part after `n`
others. -/
def LineTree.AlikeButPart (n : Nat) (f f' : LineTree TypedLine) : Prop :=
  f.linesProps = f'.linesProps ∧
    ∃ rps rP rqs rps' rP' rqs', f.children = rps ++ rP :: rqs ∧
      f'.children = rps' ++ rP' :: rqs' ∧ rps.length = n ∧
      List.Forall₂ (fun p p' => p.partProps = p'.partProps) rps rps' ∧
      List.Forall₂ (fun p p' => p.partProps = p'.partProps) rqs rqs'

/-- **One part of a fragment changed, its `N` row aside.** The fragment's own lines and its
other parts read alike, section by section; the contexts the fragment hands on agree on
every field but the transposition. -/
theorem LineTree.typedFragment_one_part (ctx : MusicProps) {t t' : LineTree GroupedLine}
    {ps qs : List (LineTree GroupedLine)} {P P' : LineTree GroupedLine}
    (hc : t.children = ps ++ P :: qs) (hc' : t'.children = ps ++ P' :: qs)
    (hl : t'.lines = t.lines) (hu : t'.uniqueLines = t.uniqueLines)
    (hN : P'.unique "N" = P.unique "N") :
    Always₂ (typedFragment ctx t) (typedFragment ctx t') fun r r' =>
      r.1.AlikeButPart ps.length r'.1 ∧ MusicProps.Agree false r.2 r'.2 := by
  unfold typedFragment plainLines
  rw [hc, hc', hl, patchOf_congr hl hu]
  simp only [List.foldlM_append, List.foldlM_cons]
  let Same := fun (p p' : LineTree TypedLine) => p.partProps = p'.partProps
  -- after the changed part: the parts before it, the changed one, the parts after it
  let After := fun (st st' : List (LineTree TypedLine) × MusicPatch) =>
    ∃ rps rP rqs rps' rP' rqs', st.1 = rps ++ rP :: rqs ∧ st'.1 = rps' ++ rP' :: rqs' ∧
      rps.length = ps.length ∧ List.Forall₂ Same rps rps' ∧ List.Forall₂ Same rqs rqs' ∧
      MusicPatch.Agree false st.2 st'.2
  refine Always₂.bind (Always₂.mapM _ fun g _ => (g.readPlain_agree (ContextRel.agree true)
    (MusicProps.Agree.refl _ _)).map fun _ _ h => h :
    Always₂ _ _ (List.Forall₂ (TypedLine.PropsRel (MusicProps.Agree true)))) fun ls ls' hls => ?_
  refine Always₂.bind (?_ : Always₂ _ _ After) fun res res' hres => ?_
  · -- the parts before the changed one read alike and change the same
    refine Always₂.bind (Always₂.foldlM_done (fun done st st' => st.1.length = done.length ∧
        List.Forall₂ Same st.1 st'.1 ∧ st.2 = st'.2) (fun done st st' part hst => ?_) ps [] _ _
        ⟨rfl, List.Forall₂.nil, rfl⟩) fun s s' hs => ?_
    · refine (typedPart_same _ part).bind fun p p' hp => Always₂.pure
        ⟨by simp [hst.1], List.rel_append hst.2.1 (List.Forall₂.cons hp.1 List.Forall₂.nil), ?_⟩
      rw [hp.2, hst.2.2]
    -- the changed part changes the same fields
    refine Always₂.bind ((typedPart_variation_agree _ _ hN.symm).bind fun p p' hp =>
      Always₂.pure (?_ : After (s.1 ++ [p.1], _) (s'.1 ++ [p'.1], _))) fun st st' hst => ?_
    · refine ⟨s.1, p.1, [], s'.1, p'.1, [], rfl, rfl, by simpa using hs.1, hs.2.1,
        List.Forall₂.nil, ?_⟩
      rw [hs.2.2]
      exact (MusicPatch.Agree.refl false s'.2).unless_isEmpty hp
    -- the parts after it read alike; the changes handed on agree but for the transposition
    refine Always₂.foldlM After _ (fun st st' part _ hst => ?_) _ _ hst
    obtain ⟨rps, rP, rqs, rps', rP', rqs', h1, h1', hlen, hps, hqs, hv⟩ := hst
    refine (typedPart_same _ part).bind fun p p' hp => Always₂.pure ⟨rps, rP, rqs ++ [p.1], rps',
      rP', rqs' ++ [p'.1], by simp [h1], by simp [h1'], hlen, hps,
      List.rel_append hqs (List.Forall₂.cons hp.1 List.Forall₂.nil), ?_⟩
    rw [← hp.2]
    exact hv.unless_isEmpty (MusicPatch.Agree.refl false p.2)
  · obtain ⟨rps, rP, rqs, rps', rP', rqs', h1, h1', hlen, hps, hqs, hv⟩ := hres
    exact Always₂.pure ⟨⟨MusicProps.Agree.forall₂_true_iff.1 (forall₂_flatMap hls),
      rps, rP, rqs, rps', rP', rqs', h1, h1', hlen, hps, hqs⟩,
      (MusicProps.Agree.refl false _).apply hv⟩

theorem LineTree.typedFragment_same (c : MusicProps) (t : LineTree GroupedLine) :
    Always₂ (typedFragment c t) (typedFragment c t) fun r r' =>
      r.1.fragmentProps = r'.1.fragmentProps ∧ r.2 = r'.2 :=
  (typedFragment_agree (ContextRel.agree true) (MusicProps.Agree.refl _ _)
    (MusicProps.Agree.refl true c) t).imp fun _ _ h =>
    ⟨MusicProps.Agree.forall₂_true_iff.1 h.1, MusicProps.Agree.true_iff.1 h.2⟩

/-- Two read articles whose fragments before the `n`-th read alike, whose `n`-th fragments read
alike but for the part after `m` others, and whose later fragments' sections agree on every
field but the transposition. -/
def LineTree.AlikeAroundPart (n m : Nat) (r r' : LineTree TypedLine) : Prop :=
  ∃ rpre rF rpost rpre' rF' rpost', r.children = rpre ++ rF :: rpost ∧
    r'.children = rpre' ++ rF' :: rpost' ∧ rpre.length = n ∧
    List.Forall₂ (fun f f' => f.fragmentProps = f'.fragmentProps) rpre rpre' ∧
    rF.AlikeButPart m rF' ∧
    List.Forall₂ (fun f f' => List.Forall₂ (MusicProps.Agree false) f.fragmentProps
      f'.fragmentProps) rpost rpost'

/-- **A part's properties reach later fragments through the transposition alone.** Take two
articles that differ in one part `P` of one fragment `F`, and not in that part's `N` row,
for example in the part's `Pi` line. The fragments before `F` read alike; in `F`, the lines
of the fragment and its other parts read alike; in every later fragment, each section's
properties agree on every field but the transposition. -/
theorem part_props_reach_later_fragments_by_transpose (docCtx : MusicProps)
    {a a' F F' P P' : LineTree GroupedLine} {pre post ps qs : List (LineTree GroupedLine)}
    (ha : a.children = pre ++ F :: post) (ha' : a'.children = pre ++ F' :: post)
    (hal : a'.lines = a.lines) (hau : a'.uniqueLines = a.uniqueLines)
    (hF : F.children = ps ++ P :: qs) (hF' : F'.children = ps ++ P' :: qs)
    (hFl : F'.lines = F.lines) (hFu : F'.uniqueLines = F.uniqueLines)
    (hN : P'.unique "N" = P.unique "N") :
    Always₂ (LineTree.typedArticle docCtx a) (LineTree.typedArticle docCtx a')
      (LineTree.AlikeAroundPart pre.length ps.length) := by
  unfold LineTree.typedArticle LineTree.plainLines
  rw [ha, ha', hal, LineTree.patchOf_congr hal hau]
  simp only [List.foldlM_append, List.foldlM_cons]
  let Later := fun (f f' : LineTree TypedLine) =>
    List.Forall₂ (MusicProps.Agree false) f.fragmentProps f'.fragmentProps
  -- after the changed fragment: the fragments before it, the changed one, the ones after it
  let After := fun (st st' : List (LineTree TypedLine) × MusicProps) =>
    ∃ rpre rF rpost rpre' rF' rpost', st.1 = rpre ++ rF :: rpost ∧
      st'.1 = rpre' ++ rF' :: rpost' ∧ rpre.length = pre.length ∧
      List.Forall₂ (fun f f' => f.fragmentProps = f'.fragmentProps) rpre rpre' ∧
      rF.AlikeButPart ps.length rF' ∧ List.Forall₂ Later rpost rpost' ∧
      MusicProps.Agree false st.2 st'.2
  refine Always₂.any.bind fun _ _ _ => Always₂.bind (?_ : Always₂ _ _ After)
    fun res res' hres => ?_
  · -- the fragments before the changed one read alike and hand on the same context
    refine Always₂.bind (Always₂.foldlM_done (fun done st st' => st.1.length = done.length ∧
        List.Forall₂ (fun f f' => f.fragmentProps = f'.fragmentProps) st.1 st'.1 ∧ st.2 = st'.2)
        (fun done st st' frag hst => ?_) pre [] _ _ ⟨rfl, List.Forall₂.nil, rfl⟩) fun s s' hs => ?_
    · rw [← hst.2.2]
      exact (LineTree.typedFragment_same _ frag).bind fun f f' hf => Always₂.pure
        ⟨by simp [hst.1], List.rel_append hst.2.1 (List.Forall₂.cons hf.1 List.Forall₂.nil), hf.2⟩
    -- the changed fragment, from the same context
    rw [← hs.2.2]
    refine Always₂.bind ((LineTree.typedFragment_one_part s.2 hF hF' hFl hFu hN).bind
      fun f f' hf => Always₂.pure (?_ : After (s.1 ++ [f.1], f.2) (s'.1 ++ [f'.1], f'.2)))
      fun st st' hst => ?_
    · exact ⟨s.1, f.1, [], s'.1, f'.1, [], rfl, rfl, by simpa using hs.1, hs.2.1, hf.1,
        List.Forall₂.nil, hf.2⟩
    -- the fragments after it, from contexts that agree but for the transposition
    refine Always₂.foldlM After _ (fun st st' frag _ hst => ?_) _ _ hst
    obtain ⟨rpre, rF, rpost, rpre', rF', rpost', h1, h1', hlen, hpre, hF, hpost, hctx⟩ := hst
    exact (LineTree.typedFragment_agree (ContextRel.agree false) (MusicProps.Agree.refl _ _)
      hctx frag).bind fun f f' hf => Always₂.pure ⟨rpre, rF, rpost ++ [f.1], rpre', rF',
        rpost' ++ [f'.1], by simp [h1], by simp [h1'], hlen, hpre, hF,
        List.rel_append hpost (List.Forall₂.cons hf.1 List.Forall₂.nil), hf.2⟩
  · obtain ⟨rpre, rF, rpost, rpre', rF', rpost', h1, h1', hlen, hpre, hF, hpost, -⟩ := hres
    exact Always₂.pure ⟨rpre, rF, rpost, rpre', rF', rpost', h1, h1', hlen, hpre, hF, hpost⟩

/-- An article of two fragments, the first of two parts, read once as it is and once with a
`Pi` line added to the second part of the first fragment. -/
theorem part_props_reach_later_fragments_pi_line_added :
    let rows := ScoreLine.commands ((ScoreLine.classify
      "P: 4/4\nN: 1 1 1 1|\nPi: +5\nN: 2 2 2 2|[+2] 2 2 2 2|\nN: 3 3 3 3|").run {}).1
    let row := fun k => ((GroupedLine.ofCommandLine (rows.getD k default)).run {}).1
    let first : LineTree GroupedLine := ⟨1, 3, [row 1], [("N", 0)], [], false⟩
    let later : LineTree GroupedLine :=
      ⟨0, 2, [], [], [⟨5, 3, [row 4], [("N", 0)], [], false⟩], false⟩
    let part : LineTree GroupedLine := ⟨3, 3, [row 3], [("N", 0)], [], false⟩
    let part' : LineTree GroupedLine :=
      ⟨3, 3, [row 3, row 2], [("N", 0), ("Pi", 1)], [], false⟩
    Always₂
      (LineTree.typedArticle {} ⟨0, 1, [row 0], [("P", 0)],
        [⟨0, 2, [], [], [first, part], false⟩, later], false⟩)
      (LineTree.typedArticle {} ⟨0, 1, [row 0], [("P", 0)],
        [⟨0, 2, [], [], [first, part'], false⟩, later], false⟩)
      (LineTree.AlikeAroundPart 0 1) := by
  intro rows row first later part part'
  exact @part_props_reach_later_fragments_by_transpose {} _ _ _ _ part part' [] [later] [first] []
    rfl rfl rfl rfl rfl rfl rfl rfl rfl

end Jianpu
