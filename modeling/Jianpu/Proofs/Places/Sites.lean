import Mathlib
import Jianpu.Proofs.Places.Rereading
import Jianpu.Proofs.Sections.Slots
import Jianpu.Proofs.Links.Fresh
import Jianpu.Compilation
/-!
# Where the sections of the read tree stand

The cursor's lookup knows a section by its card and its range (`Section.site`). Every section a
row of the read tree holds is *sited* on the command line the row was read from
(`Sited`): it is on that line, the `k`-th section is at position `k`, and its range lies within
the `k`-th reach of the line's row.

* a section read in the gap after slot `k` lies between the separators of slots `k` and `k + 1`,
  and those separators bound the `k`-th reach (`sectionReach_getElem?`,
  `SectionInGap.within_reach`), so reading a row sites its sections (`readSections_sited`);
* every line of the read tree was read from a line of the grouped tree (`TypedLine.ReadFrom`):
  it keeps that line's number and command, holds a row only for a command cut into sections,
  and sites the row on it; reading a verse, a part, a fragment and an article keeps this
  (`typedPart_readFrom`, …), and the grouped tree's lines are the built tree's command lines
  grouped (`mapLinesM_lines`).

* `readTree_readFrom` — every line of the tree a text is read into comes from a command line
  the classifier read, grouped, and sites its row there.
-/

namespace Jianpu

variable {α : Type}

def Section.site (s : Section α) : IdCard × Span := (s.card, s.span)

/-- The sections of a line's row, by card and range; a line without a row has none. -/
def LineContent.sites : LineContent → List (IdCard × Span)
  | .notes r => r.sections.map Section.site
  | .chords r => r.sections.map Section.site
  | .annotations r => r.sections.map Section.site
  | .force r => r.sections.map Section.site
  | _ => []

/-- Sections sited on the row `items` of line `line`: the `k`-th is on that line, at position `k`,
and its range lies within the `k`-th reach of the row. -/
def Sited (line : Nat) (items : List Piece) (sites : List (IdCard × Span)) : Prop :=
  ∀ (k : Nat) (site : IdCard × Span), sites[k]? = some site →
    site.1.line = line ∧ site.1.index = k ∧
    ∃ r : Span, (sectionReach items)[k]? = some r ∧ r.start ≤ site.2.start ∧ site.2.stop ≤ r.stop

/-! ## The sections of a row -/

/-- The `k`-th reach runs from the end of the separator of slot `k` to the start of the one of
slot `k + 1`, held at its start. -/
theorem sectionReach_getElem? {items : List Piece} {k : Nat}
    (hk : k < (sectionSlots (barlineRuns items.toArray) items.length).2.length)
    {s t : Option BarlineRun} {sep sep' : Separator}
    (hs : (sectionSlots (barlineRuns items.toArray) items.length).1[k]? = some s)
    (ht : (sectionSlots (barlineRuns items.toArray) items.length).1[k + 1]? = some t)
    (hsep : SlotSeparator (edges items.toArray) (s, k) sep)
    (hsep' : SlotSeparator (edges items.toArray) (t, k + 1) sep') (hnone : s = none → k = 0) :
    (sectionReach items)[k]? = some ⟨sep.span.stop, max sep'.span.start sep.span.stop⟩ := by
  unfold sectionReach
  simp only [List.size_toArray]
  rw [List.getElem?_map, List.getElem?_range hk, Option.map_some, hs, ht, Option.join_some,
    Option.join_some, Option.some.injEq]
  -- where a slot holds no run, its separator is the empty `/` at the row's edge
  have hstart : (s.map (·.span.stop)).getD (edges items.toArray).1 = sep.span.stop := by
    cases s with
    | none =>
      obtain rfl := hnone rfl
      simp only [SlotSeparator, if_true] at hsep
      simp [hsep, Separator.virtualAt, Span.emptyAt]
    | some run => simp [hsep.2]
  have hstop : (t.map (·.span.start)).getD (edges items.toArray).2 = sep'.span.start := by
    cases t with
    | none =>
      simp only [SlotSeparator, Nat.add_one_ne_zero, if_false] at hsep'
      simp [hsep', Separator.virtualAt, Span.emptyAt]
    | some run => simp [hsep'.2]
  rw [hstart, hstop]

/-- A section read in gap `k` of a row whose pieces stand in order lies within the `k`-th
reach. -/
theorem SectionInGap.within_reach {items : List Piece} (hin : PiecesInOrder items)
    {seps : List Separator}
    (hseps : List.Forall₂ (SlotSeparator (edges items.toArray))
      (sectionSlots (barlineRuns items.toArray) items.length).1.zipIdx seps)
    {k a b : Nat} (hgk : (sectionSlots (barlineRuns items.toArray) items.length).2[k]? = some (a, b))
    {sec : Section α} (hgap : SectionInGap items seps ((a, b), k) sec) :
    ∃ r : Span, (sectionReach items)[k]? = some r ∧ r.start ≤ sec.span.start ∧
      sec.span.stop ≤ r.stop := by
  obtain ⟨s, t, sep, sep', hs, ht, hsep, hsep', hnone, -, -, hstart, hstop⟩ :=
    SectionInGap.between_slots hin hseps hgk hgap
  exact ⟨_, sectionReach_getElem? (List.getElem?_eq_some_iff.1 hgk).1 hs ht hsep hsep' hnone,
    hstart, hstop.trans (le_max_left _ _)⟩

theorem readSections_sited [NoteHead α] (rx : RowScope) (items : List Piece)
    (source : PropsSource) (hin : PiecesInOrder items) :
    Always (readSections rx items source : Compiling (RowSections α))
      fun rs => Sited rx.line items (rs.sections.map Section.site) := by
  refine ((readSections_slots rx items source).and
    (readSections_each rx items source (fun _ => True) fun _ _ _ _ => Always.any)).imp
    fun rs ⟨⟨seps, hseps, hsecs⟩, hlines⟩ k site hsite => ?_
  rw [List.getElem?_map, Option.map_eq_some_iff] at hsite
  obtain ⟨sec, hsec, rfl⟩ := hsite
  obtain ⟨⟨a, b⟩, hgk, hgap⟩ := forall₂_zipIdx_getElem?_right hsecs hsec
  exact ⟨(hlines sec (List.mem_of_getElem? hsec)).1, hgap.index,
    SectionInGap.within_reach hin hseps hgk hgap⟩

theorem noteRow_sited [NoteHead α] (g : GroupedLine) (source : PropsSource)
    (hin : PiecesInOrder g.content.items) :
    Always (g.noteRow source : Compiling (NoteRow α))
      fun r => Sited g.line g.content.items (r.sections.map Section.site) := by
  unfold GroupedLine.noteRow
  exact (readSections_sited _ _ _ hin).bind fun _ h => Always.pure h

/-! ## The lines of the read tree -/

/-- What a line read from the grouped line `g` holds: a row only when `g`'s command cuts rows into
sections, and, when `g`'s pieces stand in order, that row's sections sited on `g`'s row. -/
structure LineContent.ReadFrom (g : GroupedLine) (c : LineContent) : Prop where
  sectioned : c.sites ≠ [] → SectionPlaces.sectioned g.command = true
  sited : PiecesInOrder g.content.items → Sited g.line g.content.items c.sites

/-- A line read from the grouped line `g`: on `g`'s line, with `g`'s command, holding what it
read from `g`. -/
structure TypedLine.ReadFrom (g : GroupedLine) (tl : TypedLine) : Prop where
  line : tl.line = g.line
  command : tl.command = g.command
  content : tl.content.ReadFrom g

theorem LineContent.readFrom_of_sites {g : GroupedLine} {c : LineContent} (h : c.sites = []) :
    c.ReadFrom g where
  sectioned hne := absurd h hne
  sited _ k site hsite := by simp [h] at hsite

namespace GroupedLine

theorem readFrom_typed {g : GroupedLine} {c : LineContent} (h : c.ReadFrom g) :
    (g.typed c).ReadFrom g :=
  ⟨rfl, rfl, h⟩

theorem noteRow_readFrom [NoteHead α] (g : GroupedLine) (source : PropsSource)
    (mk : NoteRow α → LineContent) (hmk : ∀ r, (mk r).sites = r.sections.map Section.site)
    (hs : SectionPlaces.sectioned g.command = true) :
    Always (g.noteRow source) fun r => (mk r).ReadFrom g :=
  fun j => ⟨fun _ => hs, fun hin => (hmk _).symm ▸ noteRow_sited g source hin j⟩

theorem readPlain_readFrom (g : GroupedLine) : Always g.readPlain (LineContent.ReadFrom g) := by
  unfold readPlain
  dsimp only
  split
  -- rows for the commands that cut them into sections, nothing sited for the others
  all_goals first
    | exact (noteRow_readFrom g _ _ (fun _ => rfl) (by simp [SectionPlaces.sectioned, *])).map fun _ h => h
    | exact Always.pure (LineContent.readFrom_of_sites rfl)
    | exact Always.any.map fun _ _ => LineContent.readFrom_of_sites rfl
    | exact Always.any.bind fun _ _ => Always.pure (LineContent.readFrom_of_sites rfl)

end GroupedLine

namespace LineTree

def ReadFrom (t : LineTree GroupedLine) (t' : LineTree TypedLine) : Prop :=
  ∀ tl ∈ t'.allLines, ∃ g ∈ t.allLines, tl.ReadFrom g

theorem allLines_withLines {β γ : Type} (t : LineTree β) (lines : List γ)
    (children : List (LineTree γ)) :
    (t.withLines lines children).allLines = lines ++ forestLines children := by
  simp [withLines, allLines]

theorem readFrom_withLines {t : LineTree GroupedLine} {lines : List TypedLine}
    {children : List (LineTree TypedLine)} (hl : ∀ tl ∈ lines, ∃ g ∈ t.lines, tl.ReadFrom g)
    (hc : ∀ c ∈ children, ∃ c₀ ∈ t.children, ReadFrom c₀ c) :
    ReadFrom t (t.withLines lines children) := by
  intro tl htl
  rw [allLines_withLines, List.mem_append] at htl
  rw [allLines_eq]
  rcases htl with htl | htl
  · obtain ⟨g, hg, h⟩ := hl tl htl
    exact ⟨g, List.mem_append_left _ hg, h⟩
  · obtain ⟨c, hc', htl⟩ := mem_forestLines.1 htl
    obtain ⟨c₀, hc₀, hread⟩ := hc c hc'
    obtain ⟨g, hg, h⟩ := hread tl htl
    exact ⟨g, List.mem_append_right _ (mem_forestLines.2 ⟨c₀, hc₀, hg⟩), h⟩

theorem plainLines_readFrom (t : LineTree GroupedLine) :
    Always (plainLines t) fun ls => ∀ tl ∈ ls, ∃ g ∈ t.lines, tl.ReadFrom g := by
  unfold plainLines
  exact (Always.mapM_list (fun g tl => tl.ReadFrom g) _ fun g _ =>
    g.readPlain_readFrom.map fun _ h => GroupedLine.readFrom_typed h).imp
    fun _ h => forall₂_mem_right h

theorem typedVerse_readFrom (ctx : MusicProps) (t : LineTree GroupedLine) :
    Always (typedVerse ctx t) (ReadFrom t) := by
  unfold typedVerse
  refine (Always.mapM_list (fun g tl => tl.ReadFrom g) _ fun g _ => ?_).bind fun ls hls =>
    Always.pure (readFrom_withLines (forall₂_mem_right hls) (by simp))
  split
  · exact (g.noteRow_readFrom _ _ (fun _ => rfl) (by simp [SectionPlaces.sectioned, *])).map
      fun _ h => GroupedLine.readFrom_typed h
  · exact g.readPlain_readFrom.map fun _ h => GroupedLine.readFrom_typed h

def NoteRowOf (t : LineTree GroupedLine) (r : NoteRow Pitch) : Prop :=
  ∀ i g, t.uniqueLines.lookup "N" = some i → t.lines[i]? = some g →
    PiecesInOrder g.content.items → Sited g.line g.content.items (r.sections.map Section.site)

theorem typedPart_readFrom (fragCtx : MusicProps) (t : LineTree GroupedLine) :
    Always (typedPart fragCtx t) fun r => ReadFrom t r.1 := by
  unfold typedPart
  dsimp only
  -- the `N` row first, read from the line the index names, or not at all
  split
  on_goal 1 =>
    rename_i gN hN
    refine (Always.some_map (P := NoteRowOf t) fun j i g hi hg hin => ?_).bind fun n hn => ?_
    · rw [hi, Option.bind_some, hg, Option.some.injEq] at hN
      subst hN
      exact noteRow_sited g _ hin j
  on_goal 2 => refine (Always.none_forall (NoteRowOf t)).bind fun n hn => ?_
  -- then every line, the `N` row kept for the line it was read from
  all_goals
    refine (Always.mapM_list (fun (gi : GroupedLine × Nat) tl => tl.ReadFrom gi.1) _
      fun gi hgi => ?_).bind fun ls hls =>
        (Always.mapM_list (fun v v' => ReadFrom v v') _ fun v _ => typedVerse_readFrom _ v).bind
          fun vs hvs => Always.pure (readFrom_withLines (fun tl htl => ?_) (forall₂_mem_right hvs))
    · obtain ⟨g, i⟩ := gi
      have hgi' : t.lines[i]? = some g := List.mem_zipIdx_iff_getElem?.1 hgi
      dsimp only
      split
      · split
        · split
          · rename_i hcmd hidx _ r
            exact Always.pure (GroupedLine.readFrom_typed
              ⟨fun _ => by simp [SectionPlaces.sectioned, hcmd],
                hn r rfl i g (beq_iff_eq.1 hidx) hgi'⟩)
          · exact (g.noteRow_readFrom _ _ (fun _ => rfl)
              (by simp [SectionPlaces.sectioned, *])).map fun _ h => GroupedLine.readFrom_typed h
        · exact g.readPlain_readFrom.map fun _ h => GroupedLine.readFrom_typed h
      all_goals first
        | exact (g.noteRow_readFrom _ _ (fun _ => rfl)
            (by simp [SectionPlaces.sectioned, *])).map fun _ h => GroupedLine.readFrom_typed h
        | exact g.readPlain_readFrom.map fun _ h => GroupedLine.readFrom_typed h
    · obtain ⟨⟨g, i⟩, hgi, h⟩ := forall₂_mem_right hls tl htl
      exact ⟨g, List.mem_of_getElem? (List.mem_zipIdx_iff_getElem?.1 hgi), h⟩

theorem typedFragment_readFrom (ctx : MusicProps) (t : LineTree GroupedLine) :
    Always (typedFragment ctx t) fun r => ReadFrom t r.1 := by
  unfold typedFragment
  dsimp only
  refine (plainLines_readFrom t).bind fun lines hlines => ?_
  refine (Always.foldlM_of_mem (fun _ (r : List (LineTree TypedLine) × MusicPatch) =>
      ∀ p ∈ r.1, ∃ part ∈ t.children, ReadFrom part p) _ (fun _ r part hpart hr => ?_) _
      (by simp)).bind fun r hr => Always.pure (readFrom_withLines hlines hr)
  exact (typedPart_readFrom _ part).bind fun _ hp => Always.pure
    (List.forall_mem_append.2 ⟨hr, List.forall_mem_singleton.2 ⟨part, hpart, hp⟩⟩)

theorem typedArticle_readFrom (docCtx : MusicProps) (t : LineTree GroupedLine) :
    Always (typedArticle docCtx t) (ReadFrom t) := by
  unfold typedArticle
  dsimp only
  refine (plainLines_readFrom t).bind fun lines hlines => ?_
  refine (Always.foldlM_of_mem (fun _ (r : List (LineTree TypedLine) × MusicProps) =>
      ∀ f ∈ r.1, ∃ frag ∈ t.children, ReadFrom frag f) _ (fun _ r frag hfrag hr => ?_) _
      (by simp)).bind fun r hr => Always.pure (readFrom_withLines hlines hr)
  exact (typedFragment_readFrom _ frag).bind fun _ hf => Always.pure
    (List.forall_mem_append.2 ⟨hr, List.forall_mem_singleton.2 ⟨frag, hfrag, hf⟩⟩)

section Lines

variable {β γ : Type} {f : β → Compiling γ} {R : β → γ → Prop}

mutual
theorem mapLinesM_lines (hf : ∀ a, Always (f a) (R a)) :
    ∀ t : LineTree β, Always (t.mapLinesM f) fun t' => ∀ b ∈ t'.allLines, ∃ a ∈ t.allLines, R a b
  | ⟨line, level, lines, uniq, children, pruned⟩ => by
    rw [mapLinesM]
    refine (Always.mapM_list R lines fun a _ => hf a).bind fun lines' hl =>
      (mapForestM_lines hf children).bind fun children' hc => Always.pure fun b hb => ?_
    simp only [allLines, List.mem_append] at hb ⊢
    rcases hb with hb | hb
    · obtain ⟨a, ha, hab⟩ := forall₂_mem_right hl b hb
      exact ⟨a, .inl ha, hab⟩
    · obtain ⟨a, ha, hab⟩ := hc b hb
      exact ⟨a, .inr ha, hab⟩

theorem mapForestM_lines (hf : ∀ a, Always (f a) (R a)) :
    ∀ ts : List (LineTree β), Always (mapForestM f ts)
      fun ts' => ∀ b ∈ forestLines ts', ∃ a ∈ forestLines ts, R a b
  | [] => Always.pure fun _ hb => by simp [forestLines] at hb
  | t :: ts => by
    rw [mapForestM]
    refine (mapLinesM_lines hf t).bind fun t' ht => (mapForestM_lines hf ts).bind
      fun ts' hts => Always.pure fun b hb => ?_
    simp only [forestLines, List.mem_append] at hb ⊢
    rcases hb with hb | hb
    · obtain ⟨a, ha, hab⟩ := ht b hb
      exact ⟨a, .inl ha, hab⟩
    · obtain ⟨a, ha, hab⟩ := hts b hb
      exact ⟨a, .inr ha, hab⟩
end

end Lines

theorem typed_readFrom (t : LineTree CommandLine) :
    Always t.typed fun t' => ∀ tl ∈ t'.allLines, ∃ c ∈ t.allLines, ∃ j,
      tl.ReadFrom ((GroupedLine.ofCommandLine c).run j).1 := by
  unfold typed
  refine (mapLinesM_lines (R := fun c g => ∃ j, g = ((GroupedLine.ofCommandLine c).run j).1)
    (fun c j => ⟨j, rfl⟩) t).bind fun g hg => ?_
  refine (plainLines_readFrom g).bind fun lines hlines => ?_
  refine (Always.mapM_list (fun a a' => ReadFrom a a') _ fun a _ => typedArticle_readFrom _ a).bind
    fun children hc => Always.pure fun tl htl => ?_
  obtain ⟨g', hg', hread⟩ := readFrom_withLines hlines (forall₂_mem_right hc) tl htl
  obtain ⟨c, hc, j, rfl⟩ := hg g' hg'
  exact ⟨c, hc, j, hread⟩

end LineTree

/-- **The read tree's lines come from the classified command lines.** Every line of the tree a
text is read into was read from a command line the classifier reads from the text, grouped: it
is on that line, with its command, and sites its row's sections there. -/
theorem readTree_readFrom (text : String) :
    Always (readTree text) fun tree => ∀ tl ∈ tree.allLines, ∃ j,
      ∃ c ∈ ScoreLine.commands ((ScoreLine.classify text).run j).1, ∃ j',
        tl.ReadFrom ((GroupedLine.ofCommandLine c).run j').1 := by
  unfold readTree
  refine Always.bind (P := fun ls => ∃ j, ls = ((ScoreLine.classify text).run j).1)
    (fun j => ⟨j, rfl⟩) fun ls hls => ?_
  obtain ⟨j, rfl⟩ := hls
  -- the built tree holds only command lines read
  refine Always.bind (P := fun t : LineTree CommandLine =>
      ∀ c ∈ t.allLines, c ∈ ScoreLine.commands ((ScoreLine.classify text).run j).1)
    (fun j' => ?_) fun t ht => ?_
  · obtain ⟨-, -, horder, -⟩ := LineTree.build_placed _ (ScoreLine.classify_placeable text j) j'
    intro c hc
    rw [LineTree.allLines_eq_flatMap, List.mem_flatMap] at hc
    obtain ⟨n, hn, hc⟩ := hc
    exact (horder n hn).subset hc
  · exact (LineTree.typed_readFrom t).imp fun t' h tl htl => by
      obtain ⟨c, hc, j', hread⟩ := h tl htl
      exact ⟨j, c, ht c hc, j', hread⟩

end Jianpu
