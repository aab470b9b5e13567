import Jianpu.Score.Links
/-!
# Syllables under notes

The lyric tokens a verse line has in a fragment are handed out in order, one to each
sounding note of its melody in that fragment: the line's own `Ln` notes where it has any
there, the voice's notes otherwise. Rests, voided notes and `-` extensions take nothing; a
skip token is used up by its note and places nothing. Tokens left over are warned about.

* `placeTokens` — tokens handed to notes.
* `Timeline.placeVerses` — every verse line's syllables by column.
-/

namespace Jianpu

/-- Hands tokens to notes in order: the syllables and extensions placed, each with the
column of its note, and how many tokens were left over. -/
def placeTokens : List (Nat × MusicNote Pitch) → List LyricToken → List LyricNote × Nat
  | [], toks => ([], toks.length)
  | _, [] => ([], 0)
  | (k, n) :: ns, t :: ts =>
    let (out, left) := placeTokens ns ts
    match t with
    | .chars cs g _ => (⟨n.startPos, n.length, k, .chars cs g⟩ :: out, left)
    | .extension _ => (⟨n.startPos, n.length, k, .extension⟩ :: out, left)
    | .skip _ => (out, left)

/-- The sounding notes of columns `[start, stop)` of a melody, each with its column. -/
def soundingNotes (melody : Array (Section Pitch)) (start stop : Nat) : List (Nat × MusicNote Pitch) :=
  (List.range (min stop melody.size - start)).flatMap fun j =>
    (((melody[start + j]?).map Section.notes).getD []).filterMap fun n =>
      if n.isSounding then some (start + j, n) else none

/-- The melody a verse line is sung to in columns `[start, stop)`: its own where it has a
written section there, else the voice's notes. -/
def VerseLine.melodyIn (l : VerseLine) (notes : Array (Section Pitch)) (start stop : Nat) :
    Array (Section Pitch) :=
  match l.substitute with
  | some sub =>
    if stop ≤ sub.size && (sub.extract start stop).any (!·.isNullish) then sub else notes
  | none => notes

/-- The verse line's syllables placed by column, its pending tokens used up. -/
def VerseLine.place (count : Nat) (notes : Array (Section Pitch)) (l : VerseLine) :
    Compiling VerseLine := do
  let lyrics ← l.pending.foldlM (fun (lyrics : Array (List LyricNote)) p => do
    let melody := l.melodyIn notes p.start p.stop
    let (placed, left) := placeTokens (soundingNotes melody p.start p.stop) p.tokens
    if left > 0 then warn p.line 0 (.lyricsExceedNotes left)
    pure (placed.foldl (fun ls n => ls.modify n.index (· ++ [n])) lyrics))
    (Array.replicate count [])
  pure { l with lyrics, pending := [] }

namespace Timeline

def placeVerses (t : Timeline) : Compiling Timeline := do
  let count := t.sectionCount
  let voices ← t.voices.mapM fun v => do
    pure { v with verses := ← v.verses.mapM (VerseLine.place count v.notes) }
  pure { t with voices }

end Timeline

end Jianpu
