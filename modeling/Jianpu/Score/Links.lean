import Jianpu.Score.Columns
/-!
# Ties and slurs

A `~` joins a note to the next note of its row; when both show the same glyph the second is
voided: it keeps its length but does not sound again. A `*` opens a slur and the next `*`
closes it. A tie or slur that crosses sections is cut into one piece per section, and the
sections are marked split on the sides where a piece goes on. One left open at the end of
the row is warned about.

* `Anchor` — where a tie or slur starts or ends.
* `linkRow` — the ties and slurs of one row.
* `Timeline.interlink` — those of every voice and verse melody.
-/

namespace Jianpu

/-- Where a tie or slur starts or ends: section, note, position, and where it is written. -/
structure Anchor where
  column : Nat
  note : Nat
  pos : Frac
  line : Nat
  index : Nat

variable {α : Type}

/-- The row with a tie or slur from one anchor to another drawn in the sections it
spans. -/
def addSpan (row : Array (Section α)) (kind : DecorationKind) (src dst : Anchor) :
    Array (Section α) :=
  let piece (a b : Option Frac) : Decoration := ⟨kind, a, b, none⟩
  let push (d : Decoration) (left right : Bool) (s : Section α) : Section α :=
    s.modifyContent fun c => { c with
      decoration := c.decoration ++ [d]
      leftSplit := c.leftSplit || left
      rightSplit := c.rightSplit || right }
  if src.column == dst.column then
    row.modify src.column (push (piece (some src.pos) (some dst.pos)) false false)
  else
    let row := row.modify src.column (push (piece (some src.pos) none) false true)
    let row := (List.range (dst.column - src.column - 1)).foldl
      (fun r j => r.modify (src.column + 1 + j) (push (piece none none) true true)) row
    row.modify dst.column (push (piece none (some dst.pos)) true false)

/-- What the walk over a row carries: the row, and the tie and slur waiting to close. -/
structure LinkState (α : Type) where
  row : Array (Section α)
  tie : Option Anchor
  slur : Option Anchor

def shownGlyph [NoteGlyph α] (n : MusicNote α) : Option String := n.glyph.map NoteGlyph.display

/-- Steps over note `i` of section `k`, closing and opening ties and slurs. -/
def linkNote [NoteGlyph α] (k : Nat) (st : LinkState α × Bool) (item : MusicNote α × Nat) :
    LinkState α × Bool :=
  let (st, seen) := st
  let (note, i) := item
  match note.kind with
  | .extend => (st, seen)
  | .note _ =>
    let here : Anchor := ⟨k, i, note.startPos, note.line, note.span.start⟩
    let display := shownGlyph note
    let firstInSection := !seen
    let st := match st.tie with
      | some src =>
        let same := ((st.row[src.column]?).bind fun s => s.notes[src.note]?).bind shownGlyph == display
        let row := if same then
            st.row.modify k fun s => s.modifyContent fun c => { c with
              notes := c.notes.modify i ({ · with voided := true })
              leftSplitVoid := c.leftSplitVoid || (firstInSection && src.column != k) }
          else st.row
        { st with row := addSpan row .tie src here, tie := none }
      | none => st
    let st := if note.suffix.tie then { st with tie := some here } else st
    let st := if note.suffix.slur then
        match st.slur with
        | some src => { st with row := addSpan st.row .slur src here, slur := none }
        | none => { st with slur := some here }
      else st
    (st, true)

/-- The ties and slurs of a row drawn in its sections; one left open is warned about. -/
def linkRow [NoteGlyph α] (row : Array (Section α)) : Compiling (Array (Section α)) := do
  let st := (List.range row.size).foldl (fun (st : LinkState α) k =>
    let notes := ((st.row[k]?).map Section.notes).getD []
    ((notes.zipIdx.foldl (linkNote k) (st, false)).1)) ⟨row, none, none⟩
  if let some a := st.tie then warn a.line a.index (.unclosedDecoration "Tie")
  if let some a := st.slur then warn a.line a.index (.unclosedDecoration "Slur")
  pure st.row

namespace Timeline

/-- The ties and slurs of every voice's notes and verse melodies. -/
def interlink (t : Timeline) : Compiling Timeline := do
  let voices ← t.voices.mapM fun v => do
    let notes ← linkRow v.notes
    let verses ← v.verses.mapM fun l => do
      match l.substitute with
      | some s => pure { l with substitute := some (← linkRow s) }
      | none => pure l
    pure { v with notes, verses }
  pure { t with voices }

end Timeline

end Jianpu
