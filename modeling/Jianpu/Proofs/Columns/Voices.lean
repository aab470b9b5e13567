import Mathlib
import Jianpu.Proofs.Columns.Rows
import Jianpu.Proofs.Columns.Signatures
/-!
# Filling a voice over one fragment

`Voice.fill` adds a part's rows to its voice at column `offset`, over the fragment's `count`
columns: the `N` row spread after the notes, the `i`-th chord, annotation and force rows
appended as the `i`-th rows of their kind, and each lyric line's own melody after the
melody of the verse line of its signature. `Voice.pad` then pads every row to the fragment's
end.

A voice about to be filled has no row longer than `offset` and notes of exactly `offset`
sections. Then, provided the part has at most one `N` line, no row of the filled voice is
longer than `offset + count` (`fill_spec`), and its notes are the old ones followed by the
part's `N` row spread over the fragment, or by nothing where the part has no `N` line. The
chord, annotation and force rows are numbered as they come: the rows numbered below the
counter reach `offset + count`, the others `offset` (`RowsBelow`). Lyric lines are found by
their signatures, all different within the part, so each verse line's melody grows at most
once per fragment (`VersesDone`).

* `Voice.EveryRow` — a property of every row of a voice.
* `fill_spec`, `pad_spec`, `new_spec` — the three ways a voice changes in a fragment.
-/

namespace Jianpu

variable {α : Type}

/-- A property of every row of a voice: its notes, each chord, annotation and force row, and
each verse line's own melody. -/
def Voice.EveryRow (v : Voice) (P : (β : Type) → Array (Section β) → Prop) : Prop :=
  P _ v.notes ∧ (∀ r ∈ v.chords, P _ r) ∧ (∀ r ∈ v.annotations, P _ r) ∧
    (∀ r ∈ v.forces, P _ r) ∧ ∀ l ∈ v.verses, ∀ s ∈ l.substitute, P _ s

theorem Voice.EveryRow.imp {v : Voice} {P Q : (β : Type) → Array (Section β) → Prop}
    (h : v.EveryRow P) (hpq : ∀ β (r : Array (Section β)), P β r → Q β r) : v.EveryRow Q :=
  ⟨hpq _ _ h.1, fun r hr => hpq _ _ (h.2.1 r hr), fun r hr => hpq _ _ (h.2.2.1 r hr),
    fun r hr => hpq _ _ (h.2.2.2.1 r hr), fun l hl s hs => hpq _ _ (h.2.2.2.2 l hl s hs)⟩

/-! ## Rows numbered as they come -/

def RowsBelow {β : Type} (rows : Array (Array (Section β))) (c offset count : Nat) : Prop :=
  ∀ k (h : k < rows.size), rows[k].size ≤ if k < c then offset + count else offset

namespace RowsBelow

variable {β : Type} {rows : Array (Array (Section β))} {c offset count : Nat}

theorem zero (h : ∀ r ∈ rows, r.size ≤ offset) : RowsBelow rows 0 offset count :=
  fun k hk => by simpa using h _ (Array.getElem_mem hk)

theorem le (h : RowsBelow rows c offset count) : ∀ r ∈ rows, r.size ≤ offset + count := by
  intro r hr
  obtain ⟨k, hk, rfl⟩ := Array.getElem_of_mem hr
  have := h k hk
  split at this <;> omega

theorem size_getD (h : RowsBelow rows c offset count) (k : Nat) :
    (rows.getD k #[]).size ≤ if k < c then offset + count else offset := by
  by_cases hk : k < rows.size
  · simpa [Array.getD_eq_getD_getElem?, Array.getElem?_eq_getElem hk] using h k hk
  · simp [Array.getD_eq_getD_getElem?, Array.getElem?_eq_none (Nat.le_of_not_lt hk)]

theorem append (h : RowsBelow rows c offset count) (ss : List (Section β)) :
    Always (appendRow rows c ss offset count) (RowsBelow · (c + 1) offset count) := by
  refine (appendRow_spec rows c ss offset count).imp fun rows' ⟨hother, hc, hsize⟩ k hk => ?_
  by_cases hkc : k = c
  · subst hkc
    have hold := h.size_getD k
    rw [if_neg (lt_irrefl k)] at hold
    rw [hsize, if_pos (Nat.lt_succ_self k)]
    omega
  · rw [hother k hk hkc]
    have hold := h.size_getD k
    split at hold <;> split <;> omega

end RowsBelow

/-! ## The lines of a part -/

/-- The key a lyric line's signature is formed from: its verse's tags and passes, when the
node has an `L` line. -/
def LineTree.lyricKey (lyric : LineTree TypedLine) : Option (List String) :=
  match lyric.unique "L" with
  | some ⟨_, _, _, .lyrics verse⟩ => some (verse.tags ++ verse.passes.map fun p => s!"{p}.")
  | _ => none

/-- The sections of the first `N` line among the lines. -/
def notesIn (lines : List TypedLine) : Option (List (Section Pitch)) :=
  lines.findSome? fun l => match l.content, l.command with
    | .notes r, .notes => some r.sections
    | _, _ => none

def OneNotesLine (lines : List TypedLine) : Prop := lines.countP (·.command == .notes) ≤ 1

theorem notesIn_eq_none {lines : List TypedLine}
    (h : lines.countP (·.command == .notes) = 0) : notesIn lines = none := by
  rw [notesIn, List.findSome?_eq_none_iff]
  intro l hl
  have hne : l.command ≠ .notes := by simpa using List.countP_eq_zero.1 h l hl
  split
  · rename_i hcommand
    exact absurd hcommand hne
  · rfl

/-- What a part's notes add to its voice: its `N` row spread over the fragment, or nothing. -/
def NotesTail (ss : Option (List (Section Pitch))) (count : Nat) (tail : Array (Section Pitch)) :
    Prop :=
  match ss with
  | some ss => tail.size = count ∧ ShowsAt tail 0 count (some ss)
  | none => tail = #[]

/-- The notes of a fragment show the part's `N` row, or placeholders, once padded to the
fragment's end. -/
theorem NotesTail.showsAt {ss : Option (List (Section Pitch))} {count : Nat}
    {tail pads : Array (Section Pitch)} (h : NotesTail ss count tail) (head : Array (Section Pitch))
    (hsize : tail.size + pads.size = count) (hnull : ∀ p ∈ pads, p.isNullish = true) :
    ShowsAt (head ++ tail ++ pads) head.size count ss := by
  cases ss with
  | some ss => exact (h.2.shift head).append pads
  | none =>
    rw [show tail = #[] from h, Array.append_empty]
    exact ShowsAt.of_pads head (by simp [show tail = #[] from h] at hsize; omega) hnull

namespace Voice

/-- One line of a part added to its voice: the step of `Voice.fill`. The counters number
the chord, annotation and force rows met so far. -/
def fillLine (offset count : Nat) :
    Voice × Nat × Nat × Nat → TypedLine → Compiling (Voice × Nat × Nat × Nat) :=
  fun ((v, c, a, f) : Voice × Nat × Nat × Nat) (l : TypedLine) => do
    match l.content, l.command with
    | .notes r, .notes =>
      let notes ← padRow v.notes offset
      pure ({ v with notes := notes ++ (← expandRow r.sections count) }, c, a, f)
    | .chords r, _ => pure ({ v with chords := ← appendRow v.chords c r.sections offset count },
        c + 1, a, f)
    | .annotations r, _ =>
      pure ({ v with annotations := ← appendRow v.annotations a r.sections offset count },
        c, a + 1, f)
    | .force r, _ => pure ({ v with forces := ← appendRow v.forces f r.sections offset count },
        c, a, f + 1)
    | _, _ => pure (v, c, a, f)

theorem fill_eq (v : Voice) (part : LineTree TypedLine) (offset count : Nat) :
    v.fill part offset count = (do
      let (v, _) ← part.lines.foldlM (fillLine offset count) (v, 0, 0, 0)
      let (v, _) ← part.children.foldlM (addVerse offset count) (v, [])
      pure v) := rfl

/-- What the lines of a part done so far have made of the voice `v`. -/
structure LinesDone (v : Voice) (offset count : Nat) (done : List TypedLine)
    (st : Voice × Nat × Nat × Nat) : Prop where
  signature : st.1.signature = v.signature
  tags : st.1.tags = v.tags
  verses : st.1.verses = v.verses
  notes : ∃ tail, st.1.notes = v.notes ++ tail ∧ NotesTail (notesIn done) count tail
  chords : RowsBelow st.1.chords st.2.1 offset count
  annotations : RowsBelow st.1.annotations st.2.2.1 offset count
  forces : RowsBelow st.1.forces st.2.2.2 offset count

theorem notesIn_append_of_ne {done : List TypedLine} {l : TypedLine}
    (h : ∀ r, l.content = .notes r → l.command ≠ .notes) :
    notesIn (done ++ [l]) = notesIn done := by
  rw [notesIn, List.findSome?_append]
  have hl : [l].findSome? (fun l : TypedLine => match l.content, l.command with
      | .notes r, .notes => some r.sections
      | _, _ => none) = none := by
    rw [List.findSome?_singleton]
    split
    · rename_i r hcontent hcommand
      exact absurd hcommand (h r hcontent)
    · rfl
  rw [hl, Option.or_none]
  rfl

/-- One line keeps what the lines done so far made of the voice, the `N` line adding the
spread row after notes of exactly `offset` sections. -/
theorem LinesDone.step {v : Voice} {offset count : Nat} {done : List TypedLine}
    {st : Voice × Nat × Nat × Nat} (hn : v.notes.size = offset)
    (h : LinesDone v offset count done st) (l : TypedLine) (hone : OneNotesLine (done ++ [l])) :
    Always (fillLine offset count st l) (LinesDone v offset count (done ++ [l])) := by
  obtain ⟨w, c, a, f⟩ := st
  obtain ⟨hsig, htags, hverses, ⟨tail, hnotes, htail⟩, hc, ha, hf⟩ := h
  dsimp only at hsig htags hverses hnotes hc ha hf
  unfold fillLine
  dsimp only
  split
  · -- the `N` line: the lines before it hold none, so the notes are still `v`'s
    rename_i r hcontent hcommand
    have hbefore : notesIn done = none := by
      apply notesIn_eq_none
      simpa [OneNotesLine, hcommand] using hone
    rw [hbefore] at htail
    simp only [NotesTail] at htail
    subst htail
    rw [Array.append_empty] at hnotes
    refine (padRow_spec _ _).bind fun notes ⟨pads, hpads, hsize, _⟩ =>
      (expandRow_spec r.sections count).bind fun E hE => Always.pure ?_
    have hpads0 : pads = #[] := by
      rw [← Array.size_eq_zero_iff, hsize, hnotes, hn]
      simp
    subst hpads0
    refine ⟨hsig, htags, hverses, ⟨E, ?_, ?_⟩, hc, ha, hf⟩
    · simp [hpads, hnotes]
    · rw [notesIn, List.findSome?_append, ← notesIn, hbefore, Option.none_or,
        List.findSome?_singleton]
      simp only [hcontent, hcommand]
      exact hE
  · rename_i r hcontent
    refine (hc.append r.sections).bind fun rows hrows => Always.pure ?_
    refine ⟨hsig, htags, hverses, ⟨tail, hnotes, ?_⟩, hrows, ha, hf⟩
    rwa [notesIn_append_of_ne (by simp [hcontent])]
  · rename_i r hcontent
    refine (ha.append r.sections).bind fun rows hrows => Always.pure ?_
    refine ⟨hsig, htags, hverses, ⟨tail, hnotes, ?_⟩, hc, hrows, hf⟩
    rwa [notesIn_append_of_ne (by simp [hcontent])]
  · rename_i r hcontent
    refine (hf.append r.sections).bind fun rows hrows => Always.pure ?_
    refine ⟨hsig, htags, hverses, ⟨tail, hnotes, ?_⟩, hc, ha, hrows⟩
    rwa [notesIn_append_of_ne (by simp [hcontent])]
  · rename_i _ _ _ hnot
    refine Always.pure ⟨hsig, htags, hverses, ⟨tail, hnotes, ?_⟩, hc, ha, hf⟩
    rwa [notesIn_append_of_ne fun r hr hcmd => hnot r hr hcmd]

/-! ## The lyric lines of a part -/


/-- What the lyric lines of a part done so far have made of the voice `w`: only verse lines
changed, the tally is that of the lines done, and a verse line's melody reaches
`offset + count` once its signature was handed out, `offset` before. -/
structure VersesDone (w : Voice) (offset count : Nat) (done : List (LineTree TypedLine))
    (st : Voice × List (String × Nat)) : Prop where
  signature : st.1.signature = w.signature
  tags : st.1.tags = w.tags
  notes : st.1.notes = w.notes
  chords : st.1.chords = w.chords
  annotations : st.1.annotations = w.annotations
  forces : st.1.forces = w.forces
  counts : st.2 = (signTags (done.filterMap LineTree.lyricKey)).2
  melodies : ∀ l ∈ st.1.verses, ∀ s ∈ l.substitute, s.size ≤
    if l.signature ∈ (signTags (done.filterMap LineTree.lyricKey)).1 then offset + count
    else offset

theorem VersesDone.step {w : Voice} {offset count : Nat} {done : List (LineTree TypedLine)}
    {st : Voice × List (String × Nat)} (h : VersesDone w offset count done st)
    (lyric : LineTree TypedLine) :
    Always (addVerse offset count st lyric) (VersesDone w offset count (done ++ [lyric])) := by
  obtain ⟨v, counts⟩ := st
  obtain ⟨hsig, htags, hnotes, hchords, hann, hforces, hcounts, hmel⟩ := h
  dsimp only at hsig htags hnotes hchords hann hforces hcounts hmel
  unfold addVerse
  dsimp only
  split
  · rename_i line _ _ verse hL
    have hkey : lyric.lyricKey = some (verse.tags ++ verse.passes.map fun p => s!"{p}.") := by
      simp [LineTree.lyricKey, hL]
    generalize verse.tags ++ List.map (fun x => toString x ++ toString ".") verse.passes = key
      at hkey ⊢
    have hD : (done ++ [lyric]).filterMap LineTree.lyricKey =
        done.filterMap LineTree.lyricKey ++ [key] := by
      simp [List.filterMap_append, hkey]
    have hfresh := (handedOut_signTags (done.filterMap LineTree.lyricKey)).fresh key
    have hnext := signTags_append_single (done.filterMap LineTree.lyricKey) key
    rw [← hcounts] at hfresh hnext
    generalize signatureOf key counts = p at hfresh hnext ⊢
    obtain ⟨sig, counts'⟩ := p
    dsimp only at hfresh hnext ⊢
    generalize hV : (if (v.verses.any fun x => x.signature == sig) = true then v.verses
      else v.verses.push ⟨sig, verse.tags, verse.passes, none, none, #[], []⟩) = verses
    -- every verse line is an old one or the one pushed, and one of them has the signature
    have hmem : ∀ l ∈ verses, l ∈ v.verses ∨ l.substitute = none := by
      intro l hl
      subst hV
      split at hl
      · exact Or.inl hl
      · rcases Array.mem_push.1 hl with hl | rfl
        · exact Or.inl hl
        · exact Or.inr rfl
    have hany : ∃ x ∈ verses, (x.signature == sig) = true := by
      subst hV
      split
      · rename_i h
        simpa [Array.any_eq_true, Array.mem_iff_getElem] using h
      · exact ⟨_, Array.mem_push_self, by simp⟩
    generalize hi : (Array.findIdx? (fun x => x.signature == sig) verses).getD 0 = i
    rw [Array.findIdx?_eq_some_of_exists hany, Option.getD_some] at hi
    subst hi
    have hlt := Array.findIdx_lt_size_of_exists hany
    have hisig := @Array.findIdx_getElem _ (fun x : VerseLine => x.signature == sig) verses hlt
    generalize Array.findIdx (fun x => x.signature == sig) verses = i at hlt hisig ⊢
    simp only [beq_iff_eq] at hisig
    -- the verse line found was not reached yet in this fragment
    have hfound : ∀ s ∈ (verses.getD i default).substitute, s.size ≤ offset := by
      intro s hs
      rw [Array.getD_eq_getD_getElem?, Array.getElem?_eq_getElem hlt, Option.getD_some] at hs
      rcases hmem _ (Array.getElem_mem hlt) with hold | hnone
      · have := hmel _ hold s hs
        rwa [hisig, if_neg hfresh] at this
      · simp [hnone] at hs
    have hfsig : (verses.getD i default).signature = sig := by
      rw [Array.getD_eq_getD_getElem?, Array.getElem?_eq_getElem hlt, Option.getD_some, hisig]
    generalize verses.getD i default = t0 at hfound hfsig ⊢
    have final : ∀ t : VerseLine, t.signature = sig → (∀ s ∈ t.substitute, s.size ≤ offset + count) →
        VersesDone w offset count (done ++ [lyric]) ({ v with verses := verses.setIfInBounds i t },
          counts') := by
      intro t htsig htsub
      refine ⟨hsig, htags, hnotes, hchords, hann, hforces, by rw [hD, hnext], ?_⟩
      intro l hl s hs
      rw [hD, hnext]
      rcases Array.mem_or_eq_of_mem_setIfInBounds hl with hl | rfl
      · rcases hmem l hl with hold | hnone
        · have hb := hmel l hold s hs
          by_cases hin : l.signature ∈ (signTags (done.filterMap LineTree.lyricKey)).1
          · rw [if_pos hin] at hb
            rwa [if_pos (List.mem_append_left _ hin)]
          · rw [if_neg hin] at hb
            split <;> omega
        · simp [hnone] at hs
      · rw [if_pos (by simp [htsig])]
        exact htsub s hs
    have hlabel : (if t0.label.isSome = true then t0 else { t0 with label := lyric.textOf "La" }).signature
        = sig ∧ (if t0.label.isSome = true then t0
          else { t0 with label := lyric.textOf "La" }).substitute = t0.substitute := by
      split <;> exact ⟨hfsig, rfl⟩
    generalize (if t0.label.isSome = true then t0 else { t0 with label := lyric.textOf "La" }) = t
      at hlabel ⊢
    obtain ⟨htsig, htsub⟩ := hlabel
    split
    · -- a melody of its own: padded to the fragment's start, then spread over it
      refine (padRow_size _ _).bind fun sub hsub => (expandRow_spec _ _).bind fun E hE =>
        Always.pure (final _ htsig ?_)
      intro s hs
      simp only [Option.mem_def, Option.some.injEq] at hs
      subst hs
      have hold : (t.substitute.getD #[]).size ≤ offset := by
        cases hsome : t.substitute with
        | none => simp
        | some s => simpa [hsome] using hfound s (htsub ▸ hsome)
      rw [Array.size_append, hsub, hE.1]
      omega
    · refine Always.pure (final _ htsig fun s hs => ?_)
      have := hfound s (htsub ▸ hs)
      omega
  · -- no `L` line: the node hands out no signature and changes nothing
    rename_i hnot
    have hkey : lyric.lyricKey = none := by
      unfold LineTree.lyricKey
      split
      · rename_i line _ _ verse hL
        exact absurd hL (hnot line _ _ verse)
      · rfl
    have hD : (done ++ [lyric]).filterMap LineTree.lyricKey = done.filterMap LineTree.lyricKey := by
      simp [List.filterMap_append, hkey]
    refine Always.pure ⟨hsig, htags, hnotes, hchords, hann, hforces, ?_, ?_⟩
    · rw [hD]
      exact hcounts
    · rw [hD]
      exact hmel

/-! ## A voice over one fragment -/

/-- Filling a voice whose rows reach at most `offset` columns, and its notes exactly, with a
part of at most one `N` line: no row of the result reaches past `offset + count`, and its notes
are the old ones followed by what the part's `N` row adds. -/
theorem fill_spec (v : Voice) (part : LineTree TypedLine) (offset count : Nat)
    (hrows : v.EveryRow fun _ r => r.size ≤ offset) (hn : v.notes.size = offset)
    (hone : OneNotesLine part.lines) :
    Always (v.fill part offset count) fun w =>
      w.signature = v.signature ∧ w.tags = v.tags ∧
      w.EveryRow (fun _ r => r.size ≤ offset + count) ∧
      ∃ tail, w.notes = v.notes ++ tail ∧ NotesTail (notesIn part.lines) count tail := by
  rw [fill_eq]
  -- the lines, under the proviso that those done hold at most one `N` line
  have hlines := Always.foldlM (f := fillLine offset count)
    (fun done st => OneNotesLine done → LinesDone v offset count done st) (fun done st l hI => by
      by_cases hl : OneNotesLine (done ++ [l])
      · have hdone : OneNotesLine done := by
          unfold OneNotesLine at hl ⊢
          rw [List.countP_append] at hl
          omega
        exact (LinesDone.step hn (hI hdone) l hl).imp fun _ h _ => h
      · exact fun _ h => absurd h hl) part.lines [] (v, 0, 0, 0) fun _ =>
      ⟨rfl, rfl, rfl, ⟨#[], by simp, rfl⟩, RowsBelow.zero hrows.2.1, RowsBelow.zero hrows.2.2.1,
        RowsBelow.zero hrows.2.2.2.1⟩
  refine hlines.bind fun st hst => ?_
  obtain ⟨hsig, htags, hverses, ⟨tail, hnotes, htail⟩, hc, ha, hf⟩ := hst (by simpa using hone)
  obtain ⟨u, c⟩ := st
  dsimp only at hsig htags hverses hnotes hc ha hf ⊢
  -- then the lyric lines, which change only the verse lines
  have hverse := Always.foldlM (f := addVerse offset count)
    (fun done st => VersesDone u offset count done st) (fun done st l hI => hI.step l)
    part.children [] (u, []) ⟨rfl, rfl, rfl, rfl, rfl, rfl, rfl, fun l hl s hs => by
      simpa [signTags] using hrows.2.2.2.2 l (hverses ▸ hl) s hs⟩
  refine hverse.bind fun st hst => ?_
  obtain ⟨w, counts⟩ := st
  obtain ⟨hsig', htags', hnotes', hc', ha', hf', -, hmel⟩ := hst
  dsimp only at hsig' htags' hnotes' hc' ha' hf' hmel ⊢
  refine Always.pure ⟨hsig'.trans hsig, htags'.trans htags, ⟨?_, ?_, ?_, ?_, ?_⟩,
    tail, hnotes'.trans hnotes, htail⟩
  · have htail_le : tail.size ≤ count := by
      unfold NotesTail at htail
      split at htail
      · exact htail.1.le
      · simp [htail]
    show w.notes.size ≤ offset + count
    rw [hnotes', hnotes, Array.size_append, hn]
    omega
  · exact hc'.symm ▸ hc.le
  · exact ha'.symm ▸ ha.le
  · exact hf'.symm ▸ hf.le
  · intro l hl s hs
    have := hmel l hl s hs
    split at this <;> omega

theorem new_spec (sig : String) (tags : List String) (offset : Nat) :
    Always (Voice.new sig tags offset) fun v => v.signature = sig ∧ v.tags = tags ∧
      v.notes.size = offset ∧ (∀ s ∈ v.notes, s.isNullish = true) ∧
      v.EveryRow fun _ r => r.size ≤ offset := by
  unfold Voice.new
  refine (padRow_spec _ _).bind fun notes ⟨pads, hpads, hsize, hnull⟩ => Always.pure ?_
  subst hpads
  refine ⟨rfl, rfl, by simp [hsize], by simpa using hnull, by simp [hsize], ?_, ?_, ?_, ?_⟩ <;> simp

theorem padVerse_spec (l : VerseLine) (len : Nat) :
    Always (match l.substitute with
      | some s => do pure { l with substitute := some (← padRow s len) }
      | none => pure l) fun l' =>
      (∀ s ∈ l.substitute, s.size ≤ len) → ∀ s ∈ l'.substitute, s.size = len := by
  split
  · rename_i s hs
    refine (padRow_size s len).bind fun r hr => Always.pure fun hle s' hs' => ?_
    simp only [Option.mem_def, Option.some.injEq] at hs'
    subst hs'
    have := hle s hs
    omega
  · rename_i hnone
    exact Always.pure fun _ s hs => by simp [hnone] at hs

theorem mapM_padRow (rows : Array (Array (Section α))) (len : Nat)
    (h : ∀ r ∈ rows, r.size ≤ len) :
    Always (rows.mapM (padRow · len)) fun rows' => ∀ r ∈ rows', r.size = len :=
  (Always.mapM_array _ rows fun r _ => padRow_size r len).imp fun rows' h2 r hr => by
    obtain ⟨r0, hr0, hsize⟩ := forall₂_mem_right h2 r (Array.mem_toList_iff.2 hr)
    have := h r0 (Array.mem_toList_iff.1 hr0)
    omega

/-- Padding a voice whose rows reach at most `len` columns makes every row reach exactly `len`,
the notes by placeholders appended. -/
theorem pad_spec (v : Voice) (len : Nat) (hrows : v.EveryRow fun _ r => r.size ≤ len) :
    Always (v.pad len) fun w => w.signature = v.signature ∧ w.tags = v.tags ∧
      w.EveryRow (fun _ r => r.size = len) ∧
      ∃ pads, w.notes = v.notes ++ pads ∧ pads.size = len - v.notes.size ∧
        ∀ p ∈ pads, p.isNullish = true := by
  unfold Voice.pad
  refine (padRow_spec _ _).bind fun notes ⟨pads, hpads, hsize, hnull⟩ =>
    (mapM_padRow _ len hrows.2.1).bind fun chords hc =>
    (mapM_padRow _ len hrows.2.2.1).bind fun annotations ha =>
    (mapM_padRow _ len hrows.2.2.2.1).bind fun forces hf =>
    (Always.mapM_array _ v.verses fun l _ => padVerse_spec l len).bind fun verses hv => Always.pure ?_
  refine ⟨rfl, rfl, ⟨?_, hc, ha, hf, ?_⟩, pads, hpads, hsize, hnull⟩
  · show notes.size = len
    rw [hpads, Array.size_append, hsize]
    have := hrows.1
    omega
  · intro l hl s hs
    obtain ⟨l0, hl0, hpad⟩ := forall₂_mem_right hv l (Array.mem_toList_iff.2 hl)
    exact hpad (hrows.2.2.2.2 l0 (Array.mem_toList_iff.1 hl0)) s hs

end Voice

end Jianpu
