import Mathlib
import Jianpu.Proofs.Links.Voiding
import Jianpu.Proofs.Columns.Articles
/-!
# Rows as they are read

Reading voids nothing: a note row is read with every note other than an extension sounding,
no section's left side voided and no side split (`Section.Fresh`). Only linking voids notes, by drawing
ties. This module carries the fact from the reader of a section's notes up through the typed
tree of a score and the laying of an article on the time axis, so that what linking does can
be stated for every row it is given.

* `noteRow_fresh` — a note row is read fresh.
* `LineTree.typed_fresh` — so is every note row of the typed tree.
* `Timeline.ofArticle_fresh`, `Timeline.allocate_fresh` — laying an article's fragments on
  the axis and giving the sections their columns keep every voice fresh, its notes and its
  verse melodies; the placeholders added are fresh too.
* `unlinked_of_fresh` — a fresh row has no tie drawn.
* `ofArticle_sidesAgree` — every row linking is given has each section's right side split
  exactly as the next one's left side (`SidesAgree`).
-/

namespace Jianpu

variable {α : Type}

def MusicNote.Unvoided (n : MusicNote α) : Prop := n.glyph.isSome = true → n.voided = false

/-- What a section holds as it is read: no note but an extension voided, its left side not
voided, and neither side split. -/
def SectionBody.Fresh : SectionBody α → Prop
  | .content c => c.leftSplitVoid = false ∧ (∀ n ∈ c.notes, n.Unvoided) ∧ c.leftSplit = false ∧
      c.rightSplit = false
  | _ => True

def Section.Fresh (s : Section α) : Prop := s.body.Fresh

section Reading

variable [NoteHead α]

theorem readNote_unvoided (cx : NoteScope) (pos unit : Frac) (a : Atom) (rest : List Atom) :
    Always (readNote cx pos unit a rest : Compiling (Nat × Option (MusicNote α)))
      fun r => ∀ n ∈ r.2, n.voided = false := by
  unfold readNote
  refine Always.any.bind fun h _ => ?_
  cases h with
  | note c used =>
    refine Always.any.bind fun r _ => Always.pure ?_
    intro n hn
    rw [Option.mem_def, Option.some.injEq] at hn
    subst hn
    rfl
  | skip used => exact Always.pure (by simp)
  | notMine => exact Always.warn_then (by simp)

/-- Reading atoms voids no note but an extension. -/
theorem eatAtoms_unvoided (cx : NoteScope) (fuel : Nat) (ratio pos : Frac) (out : Eaten α)
    (atoms : List Atom) : (∀ n ∈ out.notes, n.Unvoided) →
      Always (eatAtoms cx fuel ratio pos out atoms) fun r => ∀ n ∈ r.2.notes, n.Unvoided := by
  fun_induction eatAtoms cx fuel ratio pos out atoms
  case case1 => exact fun h => Always.pure h
  case case2 ratio pos out a rest l desc g used f ht hD ih2 ih1 =>
    exact fun h => (ih2 h).bind fun ⟨mid, out₁⟩ h₁ => ih1 mid out₁ h₁
  case case3 ratio pos out a rest l desc g used f ht hD ih3 ih2 ih1 =>
    intro h
    refine Always.any.bind fun ⟨fc, c⟩ _ => ?_
    dsimp only
    split
    · exact Always.any.bind fun _ _ => ih3 h
    · exact (ih2 fc c h).bind fun ⟨mid, out₁⟩ h₁ => ih1 fc c mid out₁ h₁
  case case4 ratio pos out a rest l desc g used ht ih1 => exact ih1
  case case5 fuel ratio pos out rest unit n j note ht ih1 =>
    -- an extension shows no glyph
    intro h
    refine ih1 fun m hm => ?_
    rcases Array.mem_push.1 hm with hm | rfl
    · exact h m hm
    · intro hg
      simp [MusicNote.glyph, note] at hg
  case case6 ratio pos out rest g j hb reduced f hi ht ih2 ih1 =>
    intro h
    rw [hi]
    exact (ih2 h).bind fun ⟨mid, out₁⟩ h₁ => ih1 mid out₁ h₁
  case case7 ratio pos out rest g j hb reduced hi ht ih1 =>
    rw [hi]
    exact ih1
  case case8 fuel ratio pos out rest g j hb reduced hi ht ih1
      | case9 fuel ratio pos out rest g j hb ht ih1
      | case10 fuel ratio pos out rest c n j hc hd ht ih1 =>
    exact fun h => Always.any.bind fun _ _ => ih1 h
  case case11 fuel ratio pos out rest unit c n j hc hd ht ih1
      | case12 fuel ratio pos out rest unit text span j ht ih1 =>
    intro h
    refine (readNote_unvoided cx pos unit _ rest).bind fun ⟨k, note⟩ hr => ih1 k note ?_
    cases note with
    | none => exact h
    | some n =>
      intro m hm
      rcases Array.mem_push.1 hm with hm | rfl
      · exact h m hm
      · exact fun _ => hr m rfl

theorem readNotes_unvoided (cx : NoteScope) (items : List Piece) :
    Always (readNotes cx items : Compiling (Eaten α × Frac))
      fun r => ∀ n ∈ r.1.notes, n.Unvoided := by
  unfold readNotes
  refine (eatAtoms_unvoided cx _ 1 0 {} (atomize items) (by simp)).bind fun r h => ?_
  obtain ⟨total, out⟩ := r
  dsimp only
  cases cx.props.meter.bind (·.swing.period) with
  | some p =>
    -- swing moves the notes and keeps what they show
    refine Always.pure ?_
    intro n hn
    obtain ⟨m, hm, rfl⟩ := Array.mem_map.1 hn
    exact h m hm
  | none => exact Always.pure h

theorem body_fresh (rx : RowScope) (content : List Piece) (span : Span) (props : MusicProps)
    (after : Barline) :
    Always (rx.body content span props after : Compiling (SectionBody α)) SectionBody.Fresh := by
  unfold RowScope.body
  split
  · exact Always.any.bind fun _ _ => Always.pure True.intro
  dsimp only
  split
  · split
    · exact Always.pure True.intro
    split
    · exact Always.pure True.intro
    · exact Always.any.bind fun _ _ => Always.pure True.intro
  · exact (readNotes_unvoided _ content).bind fun r h =>
      Always.pure ⟨rfl, by simpa using h, rfl, rfl⟩

/-- Every section a row reads is on the row's line and holds a body the section reader gives, so
it has every property all those bodies have. -/
theorem readSections_each (rx : RowScope) (items : List Piece) (source : PropsSource)
    (Q : SectionBody α → Prop)
    (hQ : ∀ content span props after, Always (rx.body content span props after) Q) :
    Always (readSections rx items source : Compiling (RowSections α))
      fun rs => ∀ s ∈ rs.sections, s.card.line = rx.line ∧ Q s.body := by
  unfold readSections
  refine Always.any.bind fun _ _ => ?_
  refine (Always.foldlM_keeps (fun st : List (Section α) × MusicProps × MusicPatch =>
      ∀ s ∈ st.1, s.card.line = rx.line ∧ Q s.body) (fun st gap hst => ?_) _ _ (by simp)).bind
    fun res hres => Always.pure hres
  obtain ⟨⟨a, b⟩, k⟩ := gap
  -- one more section, on the row's line, with the body read for it
  have hdone : ∀ body : SectionBody α, Q body → ∀ (serial : Nat) (props : MusicProps)
      (span : Span) (seps : Separators),
      ∀ s ∈ st.1 ++ [(⟨⟨rx.line, k, serial⟩, span, 0, 0, seps, props, false, body⟩ : Section α)],
        s.card.line = rx.line ∧ Q s.body :=
    fun _ hb _ _ _ _ => List.forall_mem_append.2 ⟨hst, List.forall_mem_singleton.2 ⟨rfl, hb⟩⟩
  dsimp only
  split
  · exact Always.any.bind fun _ _ => (hQ _ _ _ _).bind fun b hb =>
      Always.any.bind fun _ _ => Always.pure (hdone b hb _ _ _ _)
  · refine Always.any.bind fun _ _ => ?_
    split
    all_goals exact Always.any.bind fun _ _ => (hQ _ _ _ _).bind fun b hb =>
      Always.any.bind fun _ _ => Always.pure (hdone b hb _ _ _ _)

theorem readSections_fresh (rx : RowScope) (items : List Piece) (source : PropsSource) :
    Always (readSections rx items source : Compiling (RowSections α))
      fun rs => ∀ s ∈ rs.sections, s.Fresh :=
  (readSections_each rx items source _ (body_fresh rx)).imp fun _ h s hs => (h s hs).2

theorem noteRow_fresh (g : GroupedLine) (source : PropsSource) :
    Always (g.noteRow source : Compiling (NoteRow α)) fun r => ∀ s ∈ r.sections, s.Fresh := by
  unfold GroupedLine.noteRow
  exact (readSections_fresh _ _ _).bind fun _ h => Always.pure h

end Reading

/-! ## Every note row of the read tree -/

def LineContent.Fresh : LineContent → Prop
  | .notes r => ∀ s ∈ r.sections, s.Fresh
  | _ => True

namespace LineTree

def RowsFresh (t : LineTree TypedLine) : Prop := ∀ l ∈ t.allLines, l.content.Fresh

theorem mem_forestLines {β : Type} {l : β} {ts : List (LineTree β)} :
    l ∈ forestLines ts ↔ ∃ t ∈ ts, l ∈ t.allLines := by
  induction ts with
  | nil => simp
  | cons t ts ih => simp [ih]

theorem rowsFresh_withLines {β : Type} (t : LineTree β) (lines : List TypedLine)
    (children : List (LineTree TypedLine)) :
    (t.withLines lines children).RowsFresh ↔
      (∀ l ∈ lines, l.content.Fresh) ∧ ∀ c ∈ children, c.RowsFresh := by
  simp only [RowsFresh, withLines, allLines, List.mem_append, mem_forestLines]
  constructor
  · intro h
    exact ⟨fun l hl => h l (.inl hl), fun c hc l hl => h l (.inr ⟨c, hc, hl⟩)⟩
  · rintro ⟨hl, hc⟩ l (h | ⟨c, hcm, h⟩)
    exacts [hl l h, hc c hcm l h]

theorem RowsFresh.line {t : LineTree TypedLine} (h : t.RowsFresh) {l : TypedLine}
    (hl : l ∈ t.lines) : l.content.Fresh :=
  h l (by rw [allLines_eq]; exact List.mem_append_left _ hl)

theorem RowsFresh.child {t : LineTree TypedLine} (h : t.RowsFresh) {c : LineTree TypedLine}
    (hc : c ∈ t.children) : c.RowsFresh := fun l hl =>
  h l (by rw [allLines_eq]; exact List.mem_append_right _ (mem_forestLines.2 ⟨c, hc, hl⟩))

end LineTree

theorem GroupedLine.readPlain_fresh (g : GroupedLine) : Always g.readPlain LineContent.Fresh := by
  unfold GroupedLine.readPlain
  dsimp only
  split
  all_goals first
    | exact (noteRow_fresh g _).map fun _ h => h
    | exact Always.pure True.intro
    | exact Always.any.map fun _ _ => True.intro
    | exact Always.any.bind fun _ _ => Always.pure True.intro

namespace LineTree

theorem plainLines_fresh (t : LineTree GroupedLine) :
    Always (plainLines t) fun ls => ∀ l ∈ ls, l.content.Fresh := by
  unfold plainLines
  exact Always.mapM_forall _ fun g _ => (g.readPlain_fresh).map fun _ h => h

theorem typedVerse_fresh (ctx : MusicProps) (t : LineTree GroupedLine) :
    Always (typedVerse ctx t) RowsFresh := by
  unfold typedVerse
  refine (Always.mapM_forall (Q := fun l : TypedLine => l.content.Fresh) _ fun g _ => ?_).bind
    fun ls hls => Always.pure ((rowsFresh_withLines _ _ _).2 ⟨hls, by simp⟩)
  split
  · exact (noteRow_fresh g _).map fun _ h => h
  · exact (g.readPlain_fresh).map fun _ h => h

theorem typedPart_fresh (fragCtx : MusicProps) (t : LineTree GroupedLine) :
    Always (typedPart fragCtx t) fun r => r.1.RowsFresh := by
  unfold typedPart
  dsimp only
  -- the `N` row first, read or not
  split
  on_goal 1 => refine (Always.some_map (noteRow_fresh _ _)).bind fun n hn => ?_
  on_goal 2 =>
    refine (Always.none_forall fun r : NoteRow Pitch => ∀ s ∈ r.sections, s.Fresh).bind
      fun n hn => ?_
  all_goals
    refine (Always.mapM_forall (Q := fun l : TypedLine => l.content.Fresh) _ fun gi _ => ?_).bind
      fun ls hls => (Always.mapM_forall _ fun v _ => typedVerse_fresh _ v).bind fun vs hvs =>
        Always.pure ((rowsFresh_withLines _ _ _).2 ⟨hls, hvs⟩)
    split
    · split
      · split
        · exact Always.pure (hn _ rfl)
        · exact (noteRow_fresh _ _).map fun _ h => h
      · exact (GroupedLine.readPlain_fresh _).map fun _ h => h
    all_goals first
      | exact Always.any.map fun _ _ => True.intro
      | exact (GroupedLine.readPlain_fresh _).map fun _ h => h

theorem typedFragment_fresh (ctx : MusicProps) (t : LineTree GroupedLine) :
    Always (typedFragment ctx t) fun r => r.1.RowsFresh := by
  unfold typedFragment
  dsimp only
  refine (plainLines_fresh t).bind fun lines hlines => ?_
  refine (Always.foldlM_keeps (fun r : List (LineTree TypedLine) × MusicPatch =>
      ∀ p ∈ r.1, p.RowsFresh) (fun r part hr => ?_) _ _ (by simp)).bind fun r hr =>
    Always.pure ((rowsFresh_withLines _ _ _).2 ⟨hlines, hr⟩)
  exact (typedPart_fresh _ part).bind fun _ hpp =>
    Always.pure (List.forall_mem_append.2 ⟨hr, List.forall_mem_singleton.2 hpp⟩)

theorem typedArticle_fresh (docCtx : MusicProps) (t : LineTree GroupedLine) :
    Always (typedArticle docCtx t) RowsFresh := by
  unfold typedArticle
  dsimp only
  refine (plainLines_fresh t).bind fun lines hlines => ?_
  refine (Always.foldlM_keeps (fun r : List (LineTree TypedLine) × MusicProps =>
      ∀ f ∈ r.1, f.RowsFresh) (fun r frag hr => ?_) _ _ (by simp)).bind fun r hr =>
    Always.pure ((rowsFresh_withLines _ _ _).2 ⟨hlines, hr⟩)
  exact (typedFragment_fresh _ frag).bind fun _ hff =>
    Always.pure (List.forall_mem_append.2 ⟨hr, List.forall_mem_singleton.2 hff⟩)

theorem typed_fresh (t : LineTree CommandLine) : Always t.typed RowsFresh := by
  unfold typed
  refine Always.any.bind fun g _ => ?_
  refine (plainLines_fresh g).bind fun lines hlines => ?_
  exact (Always.mapM_forall _ fun a _ => typedArticle_fresh _ a).bind fun children hc =>
    Always.pure ((rowsFresh_withLines _ _ _).2 ⟨hlines, hc⟩)

end LineTree

/-! ## Laying the rows of an article -/

theorem Section.fresh_of_isNullish {s : Section α} (h : s.isNullish = true) : s.Fresh := by
  unfold Section.isNullish at h
  unfold Section.Fresh
  split at h
  · rename_i hb
    rw [hb]
    trivial
  · cases h

theorem padRow_fresh (row : Array (Section α)) (len : Nat) (h : ∀ s ∈ row, s.Fresh) :
    Always (padRow row len) fun r => ∀ s ∈ r, s.Fresh := by
  refine (padRow_spec row len).imp fun r hr => ?_
  obtain ⟨pads, rfl, -, hnull⟩ := hr
  exact Array.forall_mem_append.2 ⟨h, fun s hs => Section.fresh_of_isNullish (hnull s hs)⟩

/-- A fold whose every step appends copies of the item only holds items of the start and of
the list. -/
theorem mem_foldl_replicate {β σ : Type} (step : Array β × σ → β → Array β × σ)
    (hstep : ∀ acc b, ∃ n, (step acc b).1 = acc.1 ++ Array.replicate n b) :
    ∀ (l : List β) (init : Array β × σ) {x : β}, x ∈ (l.foldl step init).1 → x ∈ init.1 ∨ x ∈ l
  | [], _, _, hx => .inl hx
  | b :: l, init, x, hx => by
    rcases mem_foldl_replicate step hstep l (step init b) hx with hx | hx
    · obtain ⟨n, hn⟩ := hstep init b
      rw [hn] at hx
      rcases Array.mem_append.1 hx with hx | hx
      · exact .inl hx
      · exact .inr (List.mem_cons.2 (.inl (Array.eq_of_mem_replicate hx)))
    · exact .inr (List.mem_cons_of_mem _ hx)

theorem mem_of_mem_extract {β : Type} {xs : Array β} {x : β} {i j : Nat}
    (h : x ∈ xs.extract i j) : x ∈ xs := by
  rw [Array.mem_def, Array.toList_extract, List.extract_eq_take_drop] at h
  exact Array.mem_def.2 (List.mem_of_mem_drop (List.mem_of_mem_take h))

theorem mem_spread {ss : List (Section α)} {count : Nat} {x : Section α}
    (hx : x ∈ spread ss count) : x ∈ ss := by
  unfold spread at hx
  refine (mem_foldl_replicate _ (fun acc s => ?_) ss _ (mem_of_mem_extract hx)).resolve_left
    (by simp)
  -- each written section is copied as many times as it takes columns
  obtain ⟨out, fill⟩ := acc
  dsimp only
  split <;> exact ⟨_, rfl⟩

theorem expandRow_fresh (ss : List (Section α)) (count : Nat) (h : ∀ s ∈ ss, s.Fresh) :
    Always (expandRow ss count) fun r => ∀ s ∈ r, s.Fresh := by
  rw [expandRow_eq]
  exact padRow_fresh _ _ fun s hs => h s (mem_spread hs)

def Voice.Fresh (v : Voice) : Prop :=
  (∀ s ∈ v.notes, s.Fresh) ∧ ∀ l ∈ v.verses, ∀ sub ∈ l.substitute, ∀ s ∈ sub, s.Fresh

namespace Voice

theorem new_fresh (sig : String) (tags : List String) (offset : Nat) :
    Always (Voice.new sig tags offset) Voice.Fresh := by
  unfold Voice.new
  exact (padRow_fresh _ _ (by simp)).bind fun notes h => Always.pure ⟨h, by simp⟩

theorem fillLine_fresh (offset count : Nat) (st : Voice × Nat × Nat × Nat) (l : TypedLine)
    (hst : st.1.Fresh) (hl : l.content.Fresh) :
    Always (fillLine offset count st l) fun st' => st'.1.Fresh := by
  obtain ⟨v, c, a, f⟩ := st
  unfold fillLine
  dsimp only
  split
  · -- the `N` row: padded to the fragment, then spread over it
    rename_i r _ hr _
    rw [hr] at hl
    exact (padRow_fresh _ offset hst.1).bind fun _ hn =>
      (expandRow_fresh _ count hl).bind fun _ ht =>
        Always.pure ⟨Array.forall_mem_append.2 ⟨hn, ht⟩, hst.2⟩
  all_goals first
    | exact Always.any.bind fun _ _ => Always.pure hst
    | exact Always.pure hst

/-- A lyric line keeps the voice's rows as they were read: its own melody, if any, is an old
one padded and then the lyric's `Ln` row spread over the fragment. -/
theorem addVerse_fresh (offset count : Nat) (acc : Voice × List (String × Nat))
    (lyric : LineTree TypedLine) (hacc : acc.1.Fresh)
    (hlines : ∀ l ∈ lyric.lines, l.content.Fresh) :
    Always (addVerse offset count acc lyric) fun r => r.1.Fresh := by
  obtain ⟨v, counts⟩ := acc
  obtain ⟨hnotes, hmel⟩ := hacc
  unfold addVerse
  dsimp only
  split
  · rename_i line _ _ verse hL
    generalize signatureOf _ counts = p
    obtain ⟨sig, counts'⟩ := p
    dsimp only
    generalize hV : (if (v.verses.any fun x => x.signature == sig) = true then v.verses
      else v.verses.push ⟨sig, verse.tags, verse.passes, none, none, #[], []⟩) = verses
    -- every verse line is an old one or the one pushed, which has no melody
    have hmem : ∀ l ∈ verses, ∀ sub ∈ l.substitute, ∀ s ∈ sub, s.Fresh := by
      intro l hl
      subst hV
      split at hl
      · exact hmel l hl
      · rcases Array.mem_push.1 hl with hl | rfl
        · exact hmel l hl
        · simp
    generalize (Array.findIdx? (fun x => x.signature == sig) verses).getD 0 = i
    have ht0 : ∀ sub ∈ (verses.getD i default).substitute, ∀ s ∈ sub, s.Fresh := by
      rw [Array.getD_eq_getD_getElem?]
      cases hi : verses[i]? with
      | none => exact fun sub hsub => nomatch hsub
      | some l => exact hmem l (Array.mem_of_getElem? hi)
    have final : ∀ t : VerseLine, (∀ sub ∈ t.substitute, ∀ s ∈ sub, s.Fresh) →
        Voice.Fresh { v with verses := verses.setIfInBounds i t } := by
      intro t ht
      refine ⟨hnotes, fun l hl => ?_⟩
      rcases Array.mem_or_eq_of_mem_setIfInBounds hl with hl | rfl
      exacts [hmem l hl, ht]
    generalize verses.getD i default = t0 at ht0 ⊢
    have hlabel : (if t0.label.isSome = true then t0
        else { t0 with label := lyric.textOf "La" }).substitute = t0.substitute := by
      split <;> rfl
    generalize (if t0.label.isSome = true then t0 else { t0 with label := lyric.textOf "La" }) = t
      at hlabel ⊢
    rw [← hlabel] at ht0
    split
    · -- a melody of its own: the old one padded, then the `Ln` row spread over the fragment
      rename_i melody hLn
      have hrow : ∀ s ∈ melody.sections, s.Fresh := hlines _ (LineTree.unique_mem hLn)
      refine (padRow_fresh _ offset ?_).bind fun sub hsub =>
        (expandRow_fresh _ count hrow).bind fun e he => Always.pure (final _ ?_)
      · cases hs : t.substitute with
        | none => simp
        | some sub => simpa using ht0 sub hs
      · intro sub' hsub'
        rw [← Option.mem_some_iff.1 hsub']
        exact Array.forall_mem_append.2 ⟨hsub, he⟩
    · exact Always.pure (final _ ht0)
  · exact Always.pure ⟨hnotes, hmel⟩

theorem fill_fresh (v : Voice) (part : LineTree TypedLine) (offset count : Nat) (hv : v.Fresh)
    (hpart : part.RowsFresh) : Always (v.fill part offset count) Voice.Fresh := by
  rw [fill_eq]
  refine (Always.foldlM_of_mem (fun _ st => st.1.Fresh) part.lines
    (fun _ st l hl hst => fillLine_fresh offset count st l hst (hpart.line hl)) _ hv).bind
    fun st hst => ?_
  obtain ⟨u, c⟩ := st
  refine (Always.foldlM_of_mem (fun _ acc => acc.1.Fresh) part.children
    (fun _ acc lyric hlyric hacc => addVerse_fresh offset count acc lyric hacc
      fun l hl => (hpart.child hlyric).line hl) _ hst).bind fun acc hacc => ?_
  obtain ⟨w, counts⟩ := acc
  exact Always.pure hacc

theorem pad_fresh (v : Voice) (len : Nat) (hv : v.Fresh) : Always (v.pad len) Voice.Fresh := by
  unfold Voice.pad
  refine (padRow_fresh _ len hv.1).bind fun notes hn =>
    Always.any.bind fun _ _ => Always.any.bind fun _ _ => Always.any.bind fun _ _ =>
    (Always.mapM_array_forall (Q := fun l : VerseLine => ∀ sub ∈ l.substitute, ∀ s ∈ sub, s.Fresh)
      v.verses fun l hl => ?_).bind fun verses hvs => Always.pure ⟨hn, hvs⟩
  split
  · rename_i sub hsub
    refine (padRow_fresh sub len (hv.2 l hl sub hsub)).bind fun r hr => Always.pure ?_
    intro sub' hsub'
    rw [← Option.mem_some_iff.1 hsub']
    exact hr
  · rename_i hnone
    exact Always.pure fun sub hsub => by simp [hnone] at hsub

end Voice

theorem Voice.fresh_getD {vs : Array Voice} (h : ∀ v ∈ vs, v.Fresh) (i : Nat) :
    (vs.getD i default).Fresh := by
  rw [Array.getD_eq_getD_getElem?]
  cases hi : vs[i]? with
  | none => exact ⟨fun s hs => (nomatch hs), fun l hl => (nomatch hl)⟩
  | some v => exact h v (Array.mem_of_getElem? hi)

theorem Voice.fresh_setIfInBounds {vs : Array Voice} (h : ∀ v ∈ vs, v.Fresh) (i : Nat)
    {w : Voice} (hw : w.Fresh) : ∀ v ∈ vs.setIfInBounds i w, v.Fresh := by
  intro v hv
  rcases Array.mem_or_eq_of_mem_setIfInBounds hv with hv | rfl
  exacts [h v hv, hw]

namespace Timeline

theorem addPart_fresh (offset count : Nat) (st : Array Voice × List (String × Nat))
    (part : LineTree TypedLine) (hst : ∀ v ∈ st.1, v.Fresh) (hpart : part.RowsFresh) :
    Always (addPart offset count st part) fun st' => ∀ v ∈ st'.1, v.Fresh := by
  obtain ⟨voices, counts⟩ := st
  unfold addPart
  dsimp only
  generalize signatureOf part.partTags counts = p
  obtain ⟨sig, counts'⟩ := p
  dsimp only
  split
  · -- the voice of the signature takes the part
    rw [pure_bind]
    refine (Voice.fill_fresh _ part offset count (Voice.fresh_getD hst _) hpart).bind
      fun w hw => ?_
    exact Always.pure (Voice.fresh_setIfInBounds hst _ hw)
  · -- a new voice starts at the fragment and takes it
    refine (Voice.new_fresh sig part.partTags offset).bind fun nv hnv => ?_
    have hpush : ∀ v ∈ voices.push nv, v.Fresh := Array.forall_mem_push.2 ⟨hnv, hst⟩
    rw [pure_bind]
    refine (Voice.fill_fresh _ part offset count (Voice.fresh_getD hpush _) hpart).bind
      fun w hw => ?_
    exact Always.pure (Voice.fresh_setIfInBounds hpush _ hw)

theorem addFragment_fresh (renderProps : RenderProps) (acc : Timeline × Nat)
    (frag : LineTree TypedLine) (hacc : ∀ v ∈ acc.1.voices, v.Fresh) (hfrag : frag.RowsFresh) :
    Always (addFragment renderProps acc frag) fun r => ∀ v ∈ r.1.voices, v.Fresh := by
  obtain ⟨t, offset⟩ := acc
  unfold addFragment
  dsimp only
  split
  · exact Always.pure hacc
  refine (Always.foldlM_of_mem (f := addPart offset frag.fragmentWidth)
    (fun _ st => ∀ v ∈ st.1, v.Fresh) frag.children
    (fun _ st part hp hst => addPart_fresh _ _ st part hst (hfrag.child hp)) _ hacc).bind
    fun st hst => ?_
  obtain ⟨voices, counts⟩ := st
  dsimp only
  refine (Always.mapM_array_forall voices fun w hw => Voice.pad_fresh w _ (hst w hw)).bind
    fun voices' hfresh => ?_
  -- the jumpers do not touch the voices
  split
  · exact Always.any.bind fun _ _ => Always.pure hfresh
  · exact Always.pure hfresh

end Timeline

theorem Section.fresh_of_body {s s' : Section α} (h : s'.body = s.body) (hs : s.Fresh) :
    s'.Fresh := by
  unfold Section.Fresh
  rw [h]
  exact hs

theorem fresh_modify (row : Array (Section α)) (k : Nat) {f : Section α → Section α}
    (hf : ∀ s, (f s).body = s.body) (h : ∀ s ∈ row, s.Fresh) : ∀ s ∈ row.modify k f, s.Fresh := by
  intro s hs
  obtain ⟨i, hi, rfl⟩ := Array.getElem_of_mem hs
  rw [Array.getElem_modify]
  split
  · exact Section.fresh_of_body (hf _) (h _ (Array.getElem_mem _))
  · exact h _ (Array.getElem_mem _)

/-- A voice whose notes and verse melodies are mapped, each by a step that keeps a row as read,
stays as read. -/
theorem Voice.Fresh.mapRows {v v' : Voice} (hv : v.Fresh)
    (g : Array (Section Pitch) → Array (Section Pitch))
    (hg : ∀ row, (∀ s ∈ row, s.Fresh) → ∀ s ∈ g row, s.Fresh) (hnotes : v'.notes = g v.notes)
    (hverses : v'.verses = v.verses.map fun l => { l with substitute := l.substitute.map g }) :
    v'.Fresh := by
  refine ⟨hnotes ▸ hg _ hv.1, fun l hl sub hsub => ?_⟩
  rw [hverses] at hl
  obtain ⟨l0, hl0, rfl⟩ := Array.mem_map.1 hl
  obtain ⟨sub0, hsub0, rfl⟩ := Option.mem_map.1 hsub
  exact hg _ (hv.2 l0 hl0 sub0 hsub0)

theorem Voice.setPlaceholderProps_fresh (v : Voice) (k : Nat) (props : MusicProps)
    (hv : v.Fresh) : (v.setPlaceholderProps k props).Fresh := by
  have hf : ∀ s : Section Pitch, (if s.isNullish then { s with props } else s).body = s.body :=
    fun s => by split <;> rfl
  exact hv.mapRows _ (fun row h => fresh_modify row k hf h) rfl rfl

theorem Timeline.fillPlaceholderProps_fresh (t : Timeline) (h : ∀ v ∈ t.voices, v.Fresh) :
    ∀ v ∈ t.fillPlaceholderProps.voices, v.Fresh := by
  unfold Timeline.fillPlaceholderProps
  refine List.foldlRecOn (motive := fun t : Timeline => ∀ v ∈ t.voices, v.Fresh) _ _ h
    fun t ht k _ => ?_
  split
  · intro v hv
    obtain ⟨v0, hv0, rfl⟩ := Array.mem_map.1 hv
    exact v0.setPlaceholderProps_fresh k _ (ht v0 hv0)
  · exact ht

theorem Timeline.ofArticle_fresh (docProps : RenderProps) (article : LineTree TypedLine)
    (h : article.RowsFresh) :
    Always (Timeline.ofArticle docProps article) fun t => ∀ v ∈ t.voices, v.Fresh := by
  unfold Timeline.ofArticle
  refine (Always.foldlM_of_mem (fun _ (r : Timeline × Nat) => ∀ v ∈ r.1.voices, v.Fresh)
    article.children (fun _ r frag hf hr => addFragment_fresh _ r frag hr (h.child hf)) _
    (by simp)).bind fun r hr => Always.pure ?_
  obtain ⟨t, _⟩ := r
  exact t.fillPlaceholderProps_fresh hr

theorem fresh_placeRow (cols : Array Column) (row : Array (Section α)) (h : ∀ s ∈ row, s.Fresh) :
    ∀ s ∈ Timeline.placeRow cols row, s.Fresh := by
  intro s hs
  obtain ⟨i, hi, rfl⟩ := Array.getElem_of_mem hs
  have hrow : i < row.size := by rwa [placeRow_size] at hi
  rw [getElem_placeRow cols row hrow hi]
  split
  · exact Section.fresh_of_body (s := row[i]) rfl (h _ (Array.getElem_mem hrow))
  · exact h _ (Array.getElem_mem hrow)

theorem Timeline.allocate_fresh (t : Timeline) (h : ∀ v ∈ t.voices, v.Fresh) :
    ∀ v ∈ t.allocate.voices, v.Fresh := by
  intro v hv
  obtain ⟨v0, hv0, rfl⟩ := Array.mem_map.1 hv
  exact (h v0 hv0).mapRows _ (fresh_placeRow t.columnsOf) rfl rfl

/-! ## Rows read fresh have no tie drawn -/

theorem Section.content?_eq_some {s : Section α} {c : SectionContent α} :
    s.content? = some c ↔ s.body = .content c := by
  unfold Section.content?
  split <;> simp_all

theorem Section.Fresh.content {s : Section α} (hs : s.Fresh) {c : SectionContent α}
    (hc : s.content? = some c) :
    c.leftSplitVoid = false ∧ (∀ n ∈ c.notes, n.Unvoided) ∧ c.leftSplit = false ∧
      c.rightSplit = false := by
  unfold Section.Fresh at hs
  rw [Section.content?_eq_some.1 hc] at hs
  exact hs

theorem unlinked_of_fresh (row : Array (Section α)) (h : ∀ s ∈ row, s.Fresh) : Unlinked row := by
  refine ⟨fun m hm => ?_, fun s hs c hc => ((h s hs).content hc).1⟩
  obtain ⟨hat, g, hg⟩ := mem_rowMarks.1 hm
  -- the mark's note stands in a section of the row, and that section was read fresh
  obtain ⟨s, hs, hn⟩ := Option.bind_eq_some_iff.1 hat
  obtain ⟨c, hc, hcn⟩ : ∃ c, s.content? = some c ∧ m.note ∈ c.notes := by
    unfold Section.notes at hn
    cases hsc : s.content? with
    | none => simp [hsc] at hn
    | some c =>
      rw [hsc, Option.map_some, Option.getD_some] at hn
      exact ⟨c, rfl, List.mem_of_getElem? hn⟩
  exact ((h s (Array.mem_of_getElem? hs)).content hc).2.1 _ hcn (by simp [MusicNote.glyph, hg])

def SidesAgree (row : Array (Section α)) : Prop :=
  ∀ k c₀ c₁, (row[k]?).bind Section.content? = some c₀ →
    (row[k + 1]?).bind Section.content? = some c₁ → c₀.rightSplit = c₁.leftSplit

theorem sidesAgree_of_fresh (row : Array (Section α)) (h : ∀ s ∈ row, s.Fresh) :
    SidesAgree row := by
  intro k c₀ c₁ h₀ h₁
  obtain ⟨s₀, hs₀, hc₀⟩ := Option.bind_eq_some_iff.1 h₀
  obtain ⟨s₁, hs₁, hc₁⟩ := Option.bind_eq_some_iff.1 h₁
  rw [((h s₀ (Array.mem_of_getElem? hs₀)).content hc₀).2.2.2,
    ((h s₁ (Array.mem_of_getElem? hs₁)).content hc₁).2.2.1]

/-- **The rows interlinking is given agree at their sides.** Laying an article of rows read
fresh, every row of the allocated timeline that linking draws on, each voice's notes and each
verse melody, has every section's right side split exactly as the next one's left side. -/
theorem ofArticle_sidesAgree (docProps : RenderProps) (article : LineTree TypedLine)
    (h : article.RowsFresh) :
    Always (Timeline.ofArticle docProps article) fun t => ∀ v ∈ t.allocate.voices,
      SidesAgree v.notes ∧ ∀ l ∈ v.verses, ∀ s ∈ l.substitute, SidesAgree s :=
  (Timeline.ofArticle_fresh docProps article h).imp fun t ht v hv =>
    have hfresh := Timeline.allocate_fresh t ht v hv
    ⟨sidesAgree_of_fresh _ hfresh.1, fun l hl s hs => sidesAgree_of_fresh _ (hfresh.2 l hl s hs)⟩

end Jianpu
