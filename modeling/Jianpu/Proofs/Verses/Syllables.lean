import Mathlib
import Jianpu.Score.Verses
import Jianpu.Proofs.Issues.Yields
/-!
# Syllables go to sounding notes in order

Each fragment a verse line was written for holds its tokens `t₁ … t_T`, and the line's melody
there holds its sounding notes `n₁ … n_S` in order. Token `tᵢ` goes to note `nᵢ` for
`i ≤ min T S`: a syllable or an extension takes the note's position, length and column, a skip
places nothing. The `T - S` tokens past the last note are dropped and warned about, once, when
there are any.

* `LyricToken.placeOn` — what a token places on a note.
* `placeTokens_eq` — handing tokens to notes is pairing them up in order.
* `PendingVerse.syllables`, `PendingVerse.excess` — what a fragment's tokens place, and how
  many find no note.
* `VerseLine.sung` — a verse line with the syllables of all its fragments placed by column.
* `placeVerses_sings` — placing the syllables of a timeline sings every verse line and warns
  about every fragment's left-over tokens, in order.
-/

namespace Jianpu

/-! ## Handing tokens to notes -/

/-- What a token places on note `n` of column `k`: a syllable or an extension at the note, and
nothing for a skip. -/
def LyricToken.placeOn (k : Nat) (n : MusicNote Pitch) : LyricToken → Option LyricNote
  | .chars cs g _ => some ⟨n.startPos, n.length, k, .chars cs g⟩
  | .extension _ => some ⟨n.startPos, n.length, k, .extension⟩
  | .skip _ => none

/-- **Handing tokens to notes** pairs them up in order: each token places what it places on
its note, and the tokens past the last note are counted. -/
theorem placeTokens_eq : ∀ (ns : List (Nat × MusicNote Pitch)) (ts : List LyricToken),
    placeTokens ns ts =
      ((ns.zip ts).filterMap fun q => q.2.placeOn q.1.1 q.1.2, ts.length - ns.length)
  | [], ts => by simp [placeTokens]
  | _ :: _, [] => by simp [placeTokens]
  | (k, n) :: ns, t :: ts => by
    rw [placeTokens, placeTokens_eq ns ts]
    cases t <;> simp [LyricToken.placeOn]

namespace PendingVerse

def syllables (melody : Array (Section Pitch)) (p : PendingVerse) : List LyricNote :=
  ((soundingNotes melody p.start p.stop).zip p.tokens).filterMap fun q => q.2.placeOn q.1.1 q.1.2

def excess (melody : Array (Section Pitch)) (p : PendingVerse) : Nat :=
  p.tokens.length - (soundingNotes melody p.start p.stop).length

def excessWarning (melody : Array (Section Pitch)) (p : PendingVerse) : List Issue :=
  if p.excess melody > 0 then [⟨p.line, 0, .warning, .lyricsExceedNotes (p.excess melody)⟩]
  else []

end PendingVerse

namespace VerseLine

/-- The line with the syllables of its fragments placed: column `k` holds those that fell in
it, fragment after fragment, each fragment sung to its melody. -/
def sung (count : Nat) (notes : Array (Section Pitch)) (l : VerseLine) : VerseLine :=
  { l with
    lyrics := Array.ofFn fun k : Fin count => l.pending.flatMap fun p =>
      (p.syllables (l.melodyIn notes p.start p.stop)).filter (·.index == k.1)
    pending := [] }

def excessWarnings (notes : Array (Section Pitch)) (l : VerseLine) : List Issue :=
  l.pending.flatMap fun p => p.excessWarning (l.melodyIn notes p.start p.stop)

end VerseLine

/-! ## Filling the columns -/

theorem getElem?_foldl_modify_append (xs : List LyricNote) (k : Nat) :
    ∀ lyrics : Array (List LyricNote),
      (xs.foldl (fun ls n => ls.modify n.index (· ++ [n])) lyrics)[k]? =
        lyrics[k]?.map (· ++ xs.filter (·.index == k)) := by
  induction xs with
  | nil => intro lyrics; simp
  | cons x xs ih =>
    intro lyrics
    rw [List.foldl_cons, ih, Array.getElem?_modify]
    by_cases hx : x.index = k <;> simp [hx, Option.map_map, Function.comp_def]

theorem getElem?_foldl_pending (syl : PendingVerse → List LyricNote) (k : Nat) :
    ∀ (ps : List PendingVerse) (lyrics : Array (List LyricNote)),
      (ps.foldl (fun ls p => (syl p).foldl (fun ls n => ls.modify n.index (· ++ [n])) ls)
          lyrics)[k]? =
        lyrics[k]?.map (· ++ ps.flatMap fun p => (syl p).filter (·.index == k))
  | [], lyrics => by simp
  | p :: ps, lyrics => by
    rw [List.foldl_cons, getElem?_foldl_pending syl k ps, getElem?_foldl_modify_append]
    simp [Option.map_map, Function.comp_def]

/-! ## Placing a line's syllables -/

/-- One fragment of a line: its syllables placed in their columns, its left-over tokens
warned about. -/
theorem placeStep_yields (notes : Array (Section Pitch)) (l : VerseLine)
    (lyrics : Array (List LyricNote)) (p : PendingVerse) :
    Yields (do
        let melody := l.melodyIn notes p.start p.stop
        let (placed, left) := placeTokens (soundingNotes melody p.start p.stop) p.tokens
        if left > 0 then warn p.line 0 (.lyricsExceedNotes left)
        Pure.pure (placed.foldl (fun ls n => ls.modify n.index (· ++ [n])) lyrics))
      ((p.syllables (l.melodyIn notes p.start p.stop)).foldl
        (fun ls n => ls.modify n.index (· ++ [n])) lyrics)
      (p.excessWarning (l.melodyIn notes p.start p.stop)) := by
  simp only [placeTokens_eq]
  rw [show p.tokens.length - (soundingNotes (l.melodyIn notes p.start p.stop) p.start
      p.stop).length = p.excess (l.melodyIn notes p.start p.stop) from rfl,
    show ((soundingNotes (l.melodyIn notes p.start p.stop) p.start p.stop).zip p.tokens).filterMap
      (fun q => q.2.placeOn q.1.1 q.1.2) = p.syllables (l.melodyIn notes p.start p.stop) from rfl,
    PendingVerse.excessWarning]
  by_cases h : p.excess (l.melodyIn notes p.start p.stop) > 0
  · rw [if_pos h, if_pos h]
    exact Yields.congr (Yields.bind (Yields.warn _ _ _) (Yields.pure _)) (List.append_nil _)
  · rw [if_neg h, if_neg h]
    exact Yields.pure _

/-- **Placing a verse line** sings it: each column holds the syllables of the line's fragments
that fell in it, in order, and each fragment with tokens left over is warned about. -/
theorem VerseLine.place_yields (count : Nat) (notes : Array (Section Pitch)) (l : VerseLine) :
    Yields (l.place count notes) (l.sung count notes) (l.excessWarnings notes) := by
  have hlyrics : l.pending.foldl (fun ls p => (p.syllables (l.melodyIn notes p.start p.stop)).foldl
      (fun ls n => ls.modify n.index (· ++ [n])) ls) (Array.replicate count []) =
      (l.sung count notes).lyrics := by
    refine Array.ext_getElem? fun k => ?_
    rw [getElem?_foldl_pending, Array.getElem?_replicate]
    by_cases hk : k < count <;> simp [VerseLine.sung, hk]
  unfold VerseLine.place
  refine Yields.bind_pure (Yields.foldlM (placeStep_yields notes l) l.pending _) ?_
  rw [hlyrics]
  rfl

/-- **Syllables go to sounding notes in order.** Placing a timeline's syllables sings every
verse line of every voice to the voice's notes over the timeline's columns, and raises, voice
by voice and line by line, the warning of each fragment with tokens left over. -/
theorem placeVerses_sings (t : Timeline) :
    Yields t.placeVerses
      { t with voices := t.voices.map fun v =>
          { v with verses := v.verses.map (VerseLine.sung t.sectionCount v.notes) } }
      (t.voices.toList.flatMap fun v =>
        v.verses.toList.flatMap (VerseLine.excessWarnings v.notes)) := by
  have hvoice : ∀ v : Voice, Yields
      (do
        let verses ← v.verses.mapM (VerseLine.place t.sectionCount v.notes)
        Pure.pure { v with verses })
      { v with verses := v.verses.map (VerseLine.sung t.sectionCount v.notes) }
      (v.verses.toList.flatMap (VerseLine.excessWarnings v.notes)) := fun v =>
    Yields.bind_pure (Yields.mapM_array (VerseLine.place_yields t.sectionCount v.notes) v.verses)
      rfl
  unfold Timeline.placeVerses
  dsimp only
  exact Yields.bind_pure (Yields.mapM_array hvoice t.voices) rfl

end Jianpu
