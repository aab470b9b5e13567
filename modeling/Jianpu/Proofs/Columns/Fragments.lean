import Mathlib
import Jianpu.Proofs.Columns.Voices
/-!
# Fragments laid end to end

`Timeline.ofArticle` lays the fragments of an article one after another. Each fragment that
takes columns adds a span to the timeline's fragments, shifts its jumpers into that span,
fills the voice of each of its parts (found by signature, or started with placeholders) and
pads every voice to the span's end.

After the fragments `done`, with `offset` columns laid (`Flat`):

* every row of every voice has `offset` sections, and there is a voice once a column is laid;
* the spans tile `[0, offset)` in order, none empty, one per fragment that takes columns;
* each jumper starts before it ends and lies inside one span;
* in each span, each voice's notes show the `N` row of the fragment's part of its signature
  spread over the span, or placeholders where the fragment has no such part or the part no
  `N` line.

The voices of the parts of a fragment are followed through the fold over its parts by
`PartsDone`: each voice grows an old voice of its signature, or starts with placeholders, and
has taken the part of its signature once that part is done. Signatures within a fragment are
all different (`signTags_nodup`), so no voice takes two parts.

* `Tiles` — spans that follow one another, none empty.
* `LineTree.signedParts`, `LineTree.writtenNotes` — a fragment's parts by signature.
* `addFragment_flat`, `foldFragments_flat` — the invariant, one fragment and then all.
-/

namespace Jianpu

/-! ## Spans that tile -/

/-- The spans follow one another from `start` to `stop`, none of them empty. -/
inductive Tiles : List FragmentRange → Nat → Nat → Prop
  | done (n : Nat) : Tiles [] n n
  | span (r : FragmentRange) (rs : List FragmentRange) (stop : Nat) :
      r.start < r.stop → Tiles rs r.stop stop → Tiles (r :: rs) r.start stop

namespace Tiles

theorem le {rs : List FragmentRange} {start stop : Nat} (h : Tiles rs start stop) :
    start ≤ stop := by
  induction h with
  | done => exact le_refl _
  | span r rs stop hr _ ih => omega

theorem stop_le {rs : List FragmentRange} {start stop : Nat} (h : Tiles rs start stop) :
    ∀ r ∈ rs, r.stop ≤ stop := by
  induction h with
  | done => exact fun _ h => absurd h List.not_mem_nil
  | span r rs stop hr hrs ih =>
    intro r' hr'
    rcases List.mem_cons.1 hr' with rfl | hr'
    · exact hrs.le
    · exact ih r' hr'

theorem start_lt {rs : List FragmentRange} {start stop : Nat} (h : Tiles rs start stop) :
    ∀ r ∈ rs, r.start < r.stop := by
  induction h with
  | done => exact fun _ h => absurd h List.not_mem_nil
  | span r rs stop hr _ ih =>
    intro r' hr'
    rcases List.mem_cons.1 hr' with rfl | hr'
    · exact hr
    · exact ih r' hr'

theorem snoc {rs : List FragmentRange} {start stop : Nat} (h : Tiles rs start stop)
    (r : FragmentRange) (hstart : r.start = stop) (hr : r.start < r.stop) :
    Tiles (rs ++ [r]) start r.stop := by
  induction h with
  | done n =>
    subst hstart
    exact .span r [] r.stop hr (.done _)
  | span r' rs stop hr' _ ih => exact .span r' (rs ++ [r]) r.stop hr' (ih hstart)

end Tiles

/-! ## The parts of a fragment by signature -/

namespace LineTree

def signedParts (frag : LineTree TypedLine) : List (String × LineTree TypedLine) :=
  (signTags (frag.children.map partTags)).1.zip frag.children

def writtenNotes (frag : LineTree TypedLine) (sig : String) : Option (List (Section Pitch)) :=
  (frag.signedParts.lookup sig).bind fun part => notesIn part.lines

/-- What flattening asks of a fragment: each part has at most one `N` line, and each jumper
its lines hold starts before it ends. -/
structure Flattenable (frag : LineTree TypedLine) : Prop where
  notes : ∀ part ∈ frag.children, OneNotesLine part.lines
  jumpers : ∀ l ∈ frag.lines, ∀ js, l.content = .jumpers js → ∀ j ∈ js, j.start < j.stop

end LineTree

def partsSigned (parts : List (LineTree TypedLine)) : List (String × LineTree TypedLine) :=
  (signTags (parts.map LineTree.partTags)).1.zip parts

theorem partsSigned_append_single (parts : List (LineTree TypedLine)) (part : LineTree TypedLine) :
    partsSigned (parts ++ [part]) = partsSigned parts ++
      [((signatureOf part.partTags (signTags (parts.map LineTree.partTags)).2).1, part)] := by
  unfold partsSigned
  rw [List.map_append, List.map_singleton, signTags_append_single, List.zip_append]
  · rfl
  · rw [signTags_length, List.length_map]

theorem map_fst_partsSigned (parts : List (LineTree TypedLine)) :
    (partsSigned parts).map Prod.fst = (signTags (parts.map LineTree.partTags)).1 := by
  unfold partsSigned
  rw [List.map_fst_zip]
  rw [signTags_length, List.length_map]

/-! ## The voices of one fragment -/

/-- `w` is a voice of the fragment at `offset`: it grows an old voice of its signature or
starts with placeholders, and has taken the part of its signature among `parts` if there is
one. -/
def VoiceAt (vs : Array Voice) (offset count : Nat) (parts : List (String × LineTree TypedLine))
    (w : Voice) : Prop :=
  ∃ head : Array (Section Pitch), head.size = offset ∧
    ((∃ v ∈ vs, v.signature = w.signature ∧ head = v.notes) ∨
      ((∀ v ∈ vs, v.signature ≠ w.signature) ∧ ∀ s ∈ head, s.isNullish = true)) ∧
    match parts.lookup w.signature with
    | some part => (w.EveryRow fun _ r => r.size ≤ offset + count) ∧
        ∃ tail, w.notes = head ++ tail ∧ NotesTail (notesIn part.lines) count tail
    | none => (w.EveryRow fun _ r => r.size ≤ offset) ∧ w.notes = head

/-- What the parts of a fragment done so far have made of the old voices `vs`. -/
structure PartsDone (vs : Array Voice) (offset count : Nat) (done : List (LineTree TypedLine))
    (st : Array Voice × List (String × Nat)) : Prop where
  counts : st.2 = (signTags (done.map LineTree.partTags)).2
  distinct : (st.1.toList.map (·.signature)).Nodup
  heard : ∀ p ∈ partsSigned done, ∃ w ∈ st.1, w.signature = p.1
  old : ∀ v ∈ vs, ∃ w ∈ st.1, w.signature = v.signature
  voices : ∀ w ∈ st.1, VoiceAt vs offset count (partsSigned done) w

/-! ## Replacing the voice of a signature -/

section Keys

variable {α β : Type} {f : α → β} {xs : Array α} {i : Nat} {w : α}

theorem map_setIfInBounds_of_key (hi : i < xs.size) (hw : f w = f xs[i]) :
    (xs.setIfInBounds i w).toList.map f = xs.toList.map f := by
  rw [Array.toList_setIfInBounds, List.map_set, hw]
  apply List.ext_getElem (by simp)
  intro k h1 h2
  rw [List.getElem_set]
  split
  · rename_i hik
    subst hik
    simp
  · rfl

/-- An element of an array with distinct keys, one entry replaced, is the new entry or an old
one of another key. -/
theorem mem_setIfInBounds_of_nodup (hd : (xs.toList.map f).Nodup) (hi : i < xs.size) {u : α}
    (hu : u ∈ xs.setIfInBounds i w) : u = w ∨ (u ∈ xs ∧ f u ≠ f xs[i]) := by
  obtain ⟨j, hj, rfl⟩ := Array.mem_iff_getElem.1 hu
  have hj' : j < xs.size := by simpa using hj
  rw [Array.getElem_setIfInBounds hj']
  split
  · exact Or.inl rfl
  · rename_i hij
    refine Or.inr ⟨Array.getElem_mem hj', fun hf => hij ?_⟩
    have hlen : (xs.toList.map f).length = xs.size := by simp
    have hjl : j < (xs.toList.map f).length := hlen ▸ hj'
    have hil : i < (xs.toList.map f).length := hlen ▸ hi
    have hfl : (xs.toList.map f)[j] = (xs.toList.map f)[i] := by
      simpa using hf
    exact ((List.Nodup.getElem_inj_iff hd).1 hfl).symm

theorem exists_key_setIfInBounds (hi : i < xs.size) (hw : f w = f xs[i]) {u : α} (hu : u ∈ xs) :
    ∃ u' ∈ xs.setIfInBounds i w, f u' = f u := by
  have hmem : f u ∈ (xs.setIfInBounds i w).toList.map f := by
    rw [map_setIfInBounds_of_key hi hw]
    exact List.mem_map_of_mem (Array.mem_toList_iff.2 hu)
  obtain ⟨u', hu', heq⟩ := List.mem_map.1 hmem
  exact ⟨u', Array.mem_toList_iff.1 hu', heq⟩

end Keys

theorem lookup_append_single_of_ne {parts : List (String × LineTree TypedLine)}
    {sig key : String} {part : LineTree TypedLine} (h : key ≠ sig) :
    (parts ++ [(sig, part)]).lookup key = parts.lookup key := by
  have hne : (key == sig) = false := by simpa using h
  rw [List.lookup_append]
  simp [List.lookup_cons, hne]

theorem lookup_append_single_self {parts : List (String × LineTree TypedLine)} {sig : String}
    {part : LineTree TypedLine} (h : parts.lookup sig = none) :
    (parts ++ [(sig, part)]).lookup sig = some part := by
  rw [List.lookup_append, h]
  simp

namespace Timeline

/-- One part of a fragment added to the voice of its signature: the step of `addFragment`. -/
def addPart (offset count : Nat) :
    Array Voice × List (String × Nat) → LineTree TypedLine →
      Compiling (Array Voice × List (String × Nat)) :=
  fun ((voices, counts) : Array Voice × List (String × Nat)) part => do
    let tags := part.partTags
    let (sig, counts) := signatureOf tags counts
    let (voices, i) ← match voices.findIdx? (·.signature == sig) with
      | some i => pure (voices, i)
      | none => do pure (voices.push (← Voice.new sig tags offset), voices.size)
    let v ← (voices.getD i default).fill part offset count
    pure (voices.setIfInBounds i v, counts)

end Timeline

namespace PartsDone

variable {vs : Array Voice} {offset count : Nat} {done : List (LineTree TypedLine)}

/-- Filling the voice at `i`, of a signature no part done has, with the next part. -/
theorem fill {voices : Array Voice} {counts counts' : List (String × Nat)}
    {part : LineTree TypedLine} {sig : String} {i : Nat}
    (h : PartsDone vs offset count done (voices, counts))
    (hone : OneNotesLine part.lines) (hfresh : (partsSigned done).lookup sig = none)
    (hi : i < voices.size) (hsig : voices[i].signature = sig)
    (hcounts : counts' = (signTags ((done ++ [part]).map LineTree.partTags)).2)
    (hparts : partsSigned (done ++ [part]) = partsSigned done ++ [(sig, part)]) :
    Always (do
      let v ← (voices.getD i default).fill part offset count
      pure (voices.setIfInBounds i v, counts')) (PartsDone vs offset count (done ++ [part])) := by
  obtain ⟨-, hdistinct, hheard, hold, hvoices⟩ := h
  have hget : voices.getD i default = voices[i] := by
    rw [Array.getD_eq_getD_getElem?, Array.getElem?_eq_getElem hi, Option.getD_some]
  rw [hget]
  -- the voice of `sig` has taken no part yet
  obtain ⟨head, hhead, hfrom, hnow⟩ := hvoices _ (Array.getElem_mem hi)
  rw [hsig, hfresh] at hnow
  obtain ⟨hrows, hnotes⟩ := hnow
  refine (Voice.fill_spec voices[i] part offset count hrows (by rw [hnotes, hhead]) hone).bind
    fun w ⟨hwsig, _, hwrows, tail, hwnotes, htail⟩ => Always.pure ?_
  have hkey : w.signature = voices[i].signature := hwsig
  refine ⟨hcounts, ?_, ?_, ?_, ?_⟩
  · rwa [map_setIfInBounds_of_key hi hkey]
  · intro p hp
    rw [hparts] at hp
    rcases List.mem_append.1 hp with hp | hp
    · obtain ⟨u, hu, hus⟩ := hheard p hp
      obtain ⟨u', hu', hu's⟩ := exists_key_setIfInBounds hi hkey hu
      exact ⟨u', hu', hu's.trans hus⟩
    · rw [List.mem_singleton.1 hp]
      exact ⟨w, Array.mem_setIfInBounds hi, hkey.trans hsig⟩
  · intro v hv
    obtain ⟨u, hu, hus⟩ := hold v hv
    obtain ⟨u', hu', hu's⟩ := exists_key_setIfInBounds hi hkey hu
    exact ⟨u', hu', hu's.trans hus⟩
  · intro u hu
    rw [hparts]
    rcases mem_setIfInBounds_of_nodup hdistinct hi hu with rfl | ⟨hu, hne⟩
    · -- the voice filled: its notes grow by what the part's `N` row adds
      refine ⟨head, hhead, hkey ▸ hfrom, ?_⟩
      rw [hkey, hsig, lookup_append_single_self hfresh]
      exact ⟨hwrows, tail, by rw [hwnotes, hnotes], htail⟩
    · obtain ⟨head', hhead', hfrom', hnow'⟩ := hvoices u hu
      refine ⟨head', hhead', hfrom', ?_⟩
      rwa [lookup_append_single_of_ne (hsig ▸ hne)]

theorem lookup_eq_none_of_fresh {done : List (LineTree TypedLine)} {sig : String}
    (h : sig ∉ (signTags (done.map LineTree.partTags)).1) : (partsSigned done).lookup sig = none := by
  rw [List.lookup_eq_none_iff]
  intro p hp
  rw [bne_iff_ne]
  intro heq
  apply h
  rw [← map_fst_partsSigned, heq]
  exact List.mem_map_of_mem hp

/-- One part keeps the invariant: its signature is new among the parts done, so the voice it
finds, or the one it starts, has taken no part yet. -/
theorem step {st : Array Voice × List (String × Nat)} (h : PartsDone vs offset count done st)
    (part : LineTree TypedLine) (hone : OneNotesLine part.lines) :
    Always (Timeline.addPart offset count st part) (PartsDone vs offset count (done ++ [part])) := by
  obtain ⟨voices, counts⟩ := st
  have hc : counts = (signTags (done.map LineTree.partTags)).2 := h.counts
  have hfresh := lookup_eq_none_of_fresh ((handedOut_signTags (done.map LineTree.partTags)).fresh
    part.partTags)
  have hparts := partsSigned_append_single done part
  have hcounts : (signatureOf part.partTags counts).2 =
      (signTags ((done ++ [part]).map LineTree.partTags)).2 := by
    rw [List.map_append, List.map_singleton, signTags_append_single, hc]
  rw [← hc] at hfresh hparts
  unfold Timeline.addPart
  dsimp only
  generalize signatureOf part.partTags counts = p at hfresh hparts hcounts ⊢
  obtain ⟨sig, counts'⟩ := p
  dsimp only at hfresh hparts hcounts ⊢
  split
  · -- a voice of the signature is there
    rename_i i hfind
    obtain ⟨hi, hsig, -⟩ := Array.findIdx?_eq_some_iff_getElem.1 hfind
    exact fill h hone hfresh hi (by simpa using hsig) hcounts hparts
  · -- none is: a new one starts at the fragment, with placeholders
    rename_i hfind
    have hnone : ∀ u ∈ voices, u.signature ≠ sig := by
      intro u hu hus
      have := Array.findIdx?_eq_none_iff.1 hfind u hu
      simp [hus] at this
    refine (Voice.new_spec sig part.partTags offset).bind
      fun nv ⟨hnsig, _, hnsize, hnnull, hnrows⟩ => ?_
    obtain ⟨-, hdistinct, hheard, hold, hvoices⟩ := h
    have hnew : PartsDone vs offset count done (voices.push nv, counts) := by
      refine ⟨hc, ?_, ?_, ?_, ?_⟩
      · rw [Array.toList_push, List.map_append, List.nodup_append]
        refine ⟨hdistinct, List.nodup_singleton _, ?_⟩
        intro a ha b hb hab
        obtain ⟨u, hu, rfl⟩ := List.mem_map.1 ha
        rw [List.map_singleton, List.mem_singleton] at hb
        exact hnone u (Array.mem_toList_iff.1 hu) (hab.trans (hb.trans hnsig))
      · intro q hq
        obtain ⟨u, hu, hus⟩ := hheard q hq
        exact ⟨u, Array.mem_push_of_mem _ hu, hus⟩
      · intro v hv
        obtain ⟨u, hu, hus⟩ := hold v hv
        exact ⟨u, Array.mem_push_of_mem _ hu, hus⟩
      · intro u hu
        rcases Array.mem_push.1 hu with hu | rfl
        · exact hvoices u hu
        · refine ⟨u.notes, hnsize, Or.inr ⟨fun v hv hvs => ?_, hnnull⟩, ?_⟩
          · obtain ⟨u', hu', hu's⟩ := hold v hv
            exact hnone u' hu' (hu's.trans (hvs.trans hnsig))
          · rw [hnsig, hfresh]
            exact ⟨hnrows, rfl⟩
    exact fill hnew hone hfresh (by simp) (by simpa using hnsig) hcounts hparts

end PartsDone

/-! ## One fragment after another -/

def JumperIn (rs : List FragmentRange) (j : Jumper) : Prop :=
  j.start < j.stop ∧ ∃ r ∈ rs, r.start ≤ j.start ∧ j.stop ≤ r.stop

theorem JumperIn.mono {rs : List FragmentRange} {j : Jumper} (h : JumperIn rs j)
    (r : FragmentRange) : JumperIn (rs ++ [r]) j :=
  ⟨h.1, by
    obtain ⟨r', hr', h1, h2⟩ := h.2
    exact ⟨r', List.mem_append_left _ hr', h1, h2⟩⟩

/-- The fragment `frag` shown in the span `r` by the voices `vs`: the span is as wide as the
fragment, the signature of each of its parts has a voice, and each voice's notes show the
fragment's `N` row of its signature. -/
def Shown (vs : Array Voice) (r : FragmentRange) (frag : LineTree TypedLine) : Prop :=
  r.start + frag.fragmentWidth = r.stop ∧ (∀ p ∈ frag.signedParts, ∃ v ∈ vs, v.signature = p.1) ∧
    ∀ v ∈ vs, ShowsAt v.notes r.start frag.fragmentWidth (frag.writtenNotes v.signature)

/-- The timeline after the fragments `done` of an article, `offset` columns laid. -/
structure Flat (done : List (LineTree TypedLine)) (t : Timeline) (offset : Nat) : Prop where
  rows : ∀ v ∈ t.voices, v.EveryRow fun _ r => r.size = offset
  voiced : t.voices.size = 0 → offset = 0
  distinct : (t.voices.toList.map (·.signature)).Nodup
  tiles : Tiles t.fragments.toList 0 offset
  jumpers : ∀ j ∈ t.jumpers, JumperIn t.fragments.toList j
  shown : List.Forall₂ (Shown t.voices) t.fragments.toList (done.filter (·.fragmentWidth != 0))

/-- A voice padded to `len` columns, its notes by placeholders. -/
def Padded (len : Nat) (w w' : Voice) : Prop :=
  w'.signature = w.signature ∧ (w'.EveryRow fun _ r => r.size = len) ∧
    ∃ pads, w'.notes = w.notes ++ pads ∧ pads.size = len - w.notes.size ∧
      ∀ p ∈ pads, p.isNullish = true

theorem VoiceAt.rows {vs : Array Voice} {offset count : Nat}
    {parts : List (String × LineTree TypedLine)} {w : Voice} (h : VoiceAt vs offset count parts w) :
    w.EveryRow fun _ r => r.size ≤ offset + count := by
  obtain ⟨_, _, _, hnow⟩ := h
  split at hnow
  · exact hnow.1
  · exact hnow.1.imp fun _ _ h => by omega

theorem signedParts_ne_nil {frag : LineTree TypedLine} (h : frag.fragmentWidth ≠ 0) :
    frag.signedParts ≠ [] := by
  intro hnil
  have hlen := congrArg List.length hnil
  rw [LineTree.signedParts, List.length_zip, signTags_length, List.length_map, min_self,
    List.length_nil, List.length_eq_zero_iff] at hlen
  exact h (by simp [LineTree.fragmentWidth, hlen])

section Extend

variable {vs voices voices' : Array Voice} {offset count : Nat}
  {parts : List (String × LineTree TypedLine)}

/-- What the padded voices' notes hold before the fragment: the old notes, or placeholders. -/
theorem Shown.extend {r : FragmentRange} {frag : LineTree TypedLine} (h : Shown vs r frag)
    (hr : r.stop ≤ offset) (hold : ∀ v ∈ vs, ∃ w ∈ voices, w.signature = v.signature)
    (hvoices : ∀ w ∈ voices, VoiceAt vs offset count parts w)
    (hpad : List.Forall₂ (Padded (offset + count)) voices.toList voices'.toList) :
    Shown voices' r frag := by
  obtain ⟨hwidth, hheard, hshows⟩ := h
  refine ⟨hwidth, fun p hp => ?_, fun w' hw' => ?_⟩
  · obtain ⟨v, hv, hvs⟩ := hheard p hp
    obtain ⟨w, hw, hws⟩ := hold v hv
    obtain ⟨w', hw', hpw⟩ := forall₂_mem_left hpad w (Array.mem_toList_iff.2 hw)
    exact ⟨w', Array.mem_toList_iff.1 hw', hpw.1.trans (hws.trans hvs)⟩
  · obtain ⟨w, hw, hsig, -, pads, hnotes, -⟩ := forall₂_mem_right hpad w' (Array.mem_toList_iff.2 hw')
    obtain ⟨head, hhead, hfrom, hnow⟩ := hvoices w (Array.mem_toList_iff.1 hw)
    -- the notes of the voice begin with `head`, as long as the columns laid before
    have hprefix : ∃ rest, w'.notes = head ++ rest := by
      split at hnow
      · obtain ⟨-, tail, htail, -⟩ := hnow
        exact ⟨tail ++ pads, by rw [hnotes, htail, Array.append_assoc]⟩
      · exact ⟨pads, by rw [hnotes, hnow.2]⟩
    obtain ⟨rest, hrest⟩ := hprefix
    rw [hrest, hsig]
    refine ShowsAt.append ?_ rest
    rcases hfrom with ⟨v, hv, hvs, rfl⟩ | ⟨hnew, hnull⟩
    · rw [← hvs]
      exact hshows v hv
    · -- a voice new in this fragment has no part in the ones before
      have hnone : frag.writtenNotes w.signature = none := by
        unfold LineTree.writtenNotes
        rw [show frag.signedParts.lookup w.signature = none from ?_, Option.bind_none]
        rw [List.lookup_eq_none_iff]
        intro p hp
        rw [bne_iff_ne]
        intro hwp
        obtain ⟨v, hv, hvs⟩ := hheard p hp
        exact hnew v hv (hvs.trans hwp.symm)
      rw [hnone]
      exact ShowsAt.of_nullish hnull (by omega)

/-- The padded voices show the fragment just laid at `offset`. -/
theorem shown_fragment {frag : LineTree TypedLine} {r : FragmentRange} (hstart : r.start = offset)
    (hstop : r.stop = offset + frag.fragmentWidth)
    (hheard : ∀ p ∈ frag.signedParts, ∃ w ∈ voices, w.signature = p.1)
    (hvoices : ∀ w ∈ voices, VoiceAt vs offset frag.fragmentWidth frag.signedParts w)
    (hpad : List.Forall₂ (Padded (offset + frag.fragmentWidth)) voices.toList voices'.toList) :
    Shown voices' r frag := by
  refine ⟨by omega, fun p hp => ?_, fun w' hw' => ?_⟩
  · obtain ⟨w, hw, hws⟩ := hheard p hp
    obtain ⟨w', hw', hpw⟩ := forall₂_mem_left hpad w (Array.mem_toList_iff.2 hw)
    exact ⟨w', Array.mem_toList_iff.1 hw', hpw.1.trans hws⟩
  · obtain ⟨w, hw, hsig, -, pads, hnotes, hsize, hnull⟩ :=
      forall₂_mem_right hpad w' (Array.mem_toList_iff.2 hw')
    obtain ⟨head, hhead, -, hnow⟩ := hvoices w (Array.mem_toList_iff.1 hw)
    rw [hstart, hsig, LineTree.writtenNotes, hnotes]
    split at hnow
    · rename_i part hpart
      obtain ⟨-, tail, htail, hshow⟩ := hnow
      rw [hpart, Option.bind_some, htail, ← hhead]
      refine hshow.showsAt head ?_ hnull
      have htail_le : tail.size ≤ frag.fragmentWidth := by
        unfold NotesTail at hshow
        split at hshow
        · exact hshow.1.le
        · simp [hshow]
      rw [hsize, htail, Array.size_append]
      omega
    · rename_i hpart
      rw [hpart, Option.bind_none, hnow.2, ← hhead]
      exact ShowsAt.of_pads head (by rw [hsize, hnow.2]; omega) hnull

end Extend

/-- The timeline once a fragment that takes columns is laid: its voices padded, its jumpers
added, its span pushed. -/
theorem Flat.next {done : List (LineTree TypedLine)} {t : Timeline} {offset : Nat}
    {frag : LineTree TypedLine} {voices voices' : Array Voice} {counts : List (String × Nat)}
    {jumpers : Array Jumper} (h : Flat done t offset) (hwidth : frag.fragmentWidth ≠ 0)
    (hparts : PartsDone t.voices offset frag.fragmentWidth frag.children (voices, counts))
    (hpad : List.Forall₂ (Padded (offset + frag.fragmentWidth)) voices.toList voices'.toList)
    (line : Nat) (rp : RenderProps)
    (hjumpers : ∀ j ∈ jumpers, JumperIn (t.fragments.toList ++
      [⟨line, offset, offset + frag.fragmentWidth, rp⟩]) j) :
    Flat (done ++ [frag])
      { t with voices := voices', jumpers := jumpers,
               fragments := t.fragments.push ⟨line, offset, offset + frag.fragmentWidth, rp⟩ }
      (offset + frag.fragmentWidth) := by
  obtain ⟨-, hdistinct, hheard, hold, hvoices⟩ := hparts
  obtain ⟨-, -, -, htiles, -, hshown⟩ := h
  have hsigs : voices'.toList.map (·.signature) = voices.toList.map (·.signature) := by
    have hrel : List.Forall₂ (· = ·) (voices.toList.map (·.signature))
        (voices'.toList.map (·.signature)) := by
      rw [List.forall₂_map_left_iff, List.forall₂_map_right_iff]
      exact hpad.imp fun _ _ h => h.1.symm
    rw [List.forall₂_eq_eq_eq] at hrel
    exact hrel.symm
  have hfilter : (done ++ [frag]).filter (·.fragmentWidth != 0) =
      done.filter (·.fragmentWidth != 0) ++ [frag] := by
    simp [List.filter_append, hwidth]
  refine ⟨fun w' hw' => ?_, fun h0 => ?_, ?_, ?_, fun j hj => ?_, ?_⟩
  · obtain ⟨w, -, hpw⟩ := forall₂_mem_right hpad w' (Array.mem_toList_iff.2 hw')
    exact hpw.2.1
  · -- the fragment has a part, so a voice
    obtain ⟨p, hp⟩ := List.exists_mem_of_ne_nil _ (signedParts_ne_nil hwidth)
    obtain ⟨w, hw, -⟩ := hheard p hp
    have hlen := hpad.length_eq
    simp only [Array.length_toList] at hlen
    have hpos : 0 < voices.size := Array.size_pos_of_mem hw
    change voices'.size = 0 at h0
    omega
  · show (voices'.toList.map (·.signature)).Nodup
    rw [hsigs]
    exact hdistinct
  · show Tiles (t.fragments.push _).toList 0 _
    rw [Array.toList_push]
    exact htiles.snoc ⟨line, offset, offset + frag.fragmentWidth, rp⟩ rfl (by dsimp only; omega)
  · show JumperIn (t.fragments.push _).toList j
    rw [Array.toList_push]
    exact hjumpers j hj
  · show List.Forall₂ (Shown voices') (t.fragments.push _).toList _
    rw [Array.toList_push, hfilter]
    refine List.rel_append ?_ (List.Forall₂.cons ?_ List.Forall₂.nil)
    · rw [List.forall₂_iff_zip] at hshown ⊢
      refine ⟨hshown.1, fun {r G} hmem => ?_⟩
      exact (hshown.2 hmem).extend (htiles.stop_le r (List.of_mem_zip hmem).1) hold hvoices hpad
    · exact shown_fragment rfl rfl hheard hvoices hpad

theorem LineTree.unique_mem {α : Type} {t : LineTree α} {head : String} {l : α}
    (h : t.unique head = some l) : l ∈ t.lines := by
  unfold LineTree.unique at h
  obtain ⟨i, -, hi⟩ := Option.bind_eq_some_iff.1 h
  exact List.mem_of_getElem? hi

theorem jumperIn_shifted (rs : List FragmentRange) (line : Nat) (rp : RenderProps)
    {offset count : Nat} (j : Jumper) (hj : j.start < j.stop) (hc : ¬j.start ≥ count) :
    JumperIn (rs ++ [⟨line, offset, offset + count, rp⟩])
      ({ j with stop := min j.stop count }.shifted offset) := by
  refine ⟨?_, ⟨line, offset, offset + count, rp⟩, List.mem_append_right _ (List.mem_singleton_self _),
    ?_, ?_⟩ <;> simp only [Jumper.shifted] <;> omega

/-- One fragment keeps the invariant. -/
theorem addFragment_flat (renderProps : RenderProps) {done : List (LineTree TypedLine)}
    {t : Timeline} {offset : Nat} (h : Flat done t offset) (frag : LineTree TypedLine)
    (hfrag : frag.Flattenable) :
    Always (Timeline.addFragment renderProps (t, offset) frag) fun r =>
      Flat (done ++ [frag]) r.1 r.2 := by
  unfold Timeline.addFragment
  dsimp only
  split
  · -- a fragment without columns changes nothing
    rename_i hzero
    have hfilter : (done ++ [frag]).filter (·.fragmentWidth != 0) =
        done.filter (·.fragmentWidth != 0) := by
      simp [List.filter_append, show frag.fragmentWidth = 0 by simpa using hzero]
    obtain ⟨h1, h2, h3, h4, h5, h6⟩ := h
    exact Always.pure ⟨h1, h2, h3, h4, h5, hfilter ▸ h6⟩
  · rename_i hwidth
    have hwidth' : frag.fragmentWidth ≠ 0 := by simpa using hwidth
    have hstart : PartsDone t.voices offset frag.fragmentWidth [] (t.voices, []) :=
      ⟨rfl, h.distinct, fun _ hp => absurd hp List.not_mem_nil,
        fun v hv => ⟨v, hv, rfl⟩, fun w hw => ⟨w.notes, (h.rows w hw).1,
          Or.inl ⟨w, hw, rfl, rfl⟩, ⟨(h.rows w hw).imp fun _ _ h => h.le, rfl⟩⟩⟩
    refine (Always.foldlM_of_mem (f := Timeline.addPart offset frag.fragmentWidth)
      (PartsDone t.voices offset frag.fragmentWidth) frag.children
      (fun _ _ part hp hI => hI.step part (hfrag.notes part hp)) _ hstart).bind
      fun st hst => ?_
    obtain ⟨voices, counts⟩ := st
    dsimp only
    refine (Always.mapM_array (Padded (offset + frag.fragmentWidth)) voices fun w hw =>
      (Voice.pad_spec w _ (hst.voices w hw).rows).imp
        fun w' ⟨h1, _, h3, h4⟩ => ⟨h1, h3, h4⟩).bind fun voices' hpad => ?_
    split
    · -- the jumpers of the `J` line, shifted into the span and cut at its end
      rename_i line _ _ js hJ
      have hjs : ∀ j ∈ js, j.start < j.stop := hfrag.jumpers _ (LineTree.unique_mem hJ) js rfl
      refine (Always.foldlM_of_mem (fun _ (acc : Array Jumper) => ∀ j ∈ acc,
        JumperIn (t.fragments.toList ++ [⟨frag.line, offset, offset + frag.fragmentWidth,
          renderProps.overlay frag.renderPropsOf⟩]) j) js ?_ t.jumpers
        fun j hj => (h.jumpers j hj).mono _).bind
        fun jumpers hj => Always.pure (h.next hwidth' hst hpad _ _ hj)
      intro _ acc j hj hacc
      have hstep : Always (if j.start ≥ frag.fragmentWidth then Pure.pure acc
          else Pure.pure (acc.push ({ j with stop := min j.stop frag.fragmentWidth }.shifted offset)))
          fun acc' : Array Jumper => ∀ j' ∈ acc', JumperIn (t.fragments.toList ++
            [⟨frag.line, offset, offset + frag.fragmentWidth,
              renderProps.overlay frag.renderPropsOf⟩]) j' := by
        split
        · exact Always.pure hacc
        · rename_i hc
          refine Always.pure fun j' hj' => ?_
          rcases Array.mem_push.1 hj' with hj' | rfl
          · exact hacc j' hj'
          · exact jumperIn_shifted _ _ _ j (hjs j hj) hc
      split
      · exact Always.bind (P := fun _ => True) (fun _ => trivial) fun _ _ => hstep
      · exact hstep
    · exact Always.pure (h.next hwidth' hst hpad _ _ fun j hj => (h.jumpers j hj).mono _)

theorem foldFragments_flat (renderProps : RenderProps) (frags : List (LineTree TypedLine))
    (hfrags : ∀ frag ∈ frags, frag.Flattenable) {t : Timeline} (h : Flat [] t 0) :
    Always (frags.foldlM (Timeline.addFragment renderProps) (t, 0)) fun r => Flat frags r.1 r.2 :=
  Always.foldlM_of_mem (fun done (r : Timeline × Nat) => Flat done r.1 r.2) frags
    (fun _ _ frag hfrag hI => addFragment_flat renderProps hI frag (hfrags frag hfrag)) _ h

theorem flat_empty (line : Nat) (title : Option String) (rp : RenderProps) :
    Flat [] ⟨line, title, rp, #[], #[], #[], #[]⟩ 0 :=
  ⟨fun _ h => absurd h (Array.not_mem_empty _), fun _ => rfl, List.nodup_nil, .done 0,
    fun _ h => absurd h (Array.not_mem_empty _), List.Forall₂.nil⟩

end Jianpu
