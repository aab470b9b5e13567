import Jianpu.Content.Atom
/-!
# Reading the notes of a section

A section's atoms are read into notes with positions and lengths in quarters. A note lasts
one unit of the meter, scaled by the ratio of the groups around it:

* `( ... )` scales what is inside by the reduction of the properties (a half by default);
* `T( ... )` and `T[f, c]( ... )` make a tuplet of ratio `f/c` (`2/3` by default), drawn as
  a bracket labelled `c`, or `c:f` when the inside does not fill `c` slots;
* `D( ... )` groups without scaling.

A `-` extends the note before it by one unit; one that opens a section stands for nothing.
Touching `~`, `*`, `.`, `[...]` and `[[...]]` after a head tie, slur, dot, add attributes
and stack tones. A note of `d` dots lasts `(2^(d+1) - 1)/2^d` units, counting at most 8
dots. A group whose ratio leaves the fractions that can be held is skipped with a warning.

A swing meter then moves every position `x` within its period `p`: the first half of the
period is stretched to two thirds of it and the second half pressed into the rest.

* `warp` — the swing of a position.
* `readNotes` — the notes, decorations and written length of a section.
-/

namespace Jianpu

/-- What a section's reading has produced so far. -/
structure Eaten (α : Type) where
  notes : Array (MusicNote α) := #[]
  decorations : Array Decoration := #[]
  deriving Inhabited

/-- What the reading of a section needs: its line, the line's text and the properties it is
read under. -/
structure NoteScope where
  line : Nat
  src : LineText
  props : MusicProps

def maxDots : Nat := 8

def maxTupletFactor : Int := 64

/-- The ratio `[f, c]` of a tuplet: two groups of one token each, integers from 1 to 64. -/
def tupletRatio (p : Bracketed) : Option (Int × Int) := do
  let values ← p.nonEmptyGroups.mapM fun g => match g with
    | [.token t] => (Decimal.readI64 t.content).filter fun v => 1 ≤ v && v ≤ maxTupletFactor
    | _ => none
  match values with
  | [f, c] => some (f, c)
  | _ => none

/-- The ratio a tuplet is read at: that of its descriptor, or `2/3` when it has none or one
that does not read, with a warning then. -/
def readTupletRatio (line : Nat) : Option Bracketed → Compiling (Int × Int)
  | some d =>
    match tupletRatio d with
    | some r => pure r
    | none => do
      warn line d.span.start (.badTriplet d.text)
      pure (2, 3)
  | none => pure (2, 3)

/-- A tuplet at the front of the atoms: its letter `T` or `D`, its descriptor, its group
and the number of atoms it takes. -/
def tupletAt : List Atom → Option (Char × Option Bracketed × Bracketed × Nat)
  | .char l _ _ :: next :: more =>
    if (l == 'T' || l == 'D') && next.joined then
      match l, next.pairOf? .square, more with
      | 'T', some d, after :: _ =>
        if after.joined then (after.pairOf? .paren).map fun g => (l, some d, g, 3) else none
      | 'T', some _, [] => none
      | _, _, _ => (next.pairOf? .paren).map fun g => (l, none, g, 2)
    else none
  | _ => none

/-- The suffixes touching a note: tie, slur, dots, attributes and stacks, and how many atoms
they take. -/
def readSuffixes (line : Nat) (src : LineText) :
    List Atom → NoteSuffix → List NoteAttr → Compiling (NoteSuffix × List NoteAttr × Nat)
  | [], sfx, attrs => pure (sfx, attrs, 0)
  | a :: more, sfx, attrs => do
    if !a.joined then return (sfx, attrs, 0)
    let next : Option (Compiling (NoteSuffix × List NoteAttr)) := match a with
      | .char '~' _ _ => some (pure ({ sfx with tie := true }, attrs))
      | .char '*' _ _ => some (pure ({ sfx with slur := true }, attrs))
      | .char '.' _ _ => some (pure ({ sfx with dots := sfx.dots + 1 }, attrs))
      | .pair p _ =>
        if p.bracket == some .square then
          some do pure (sfx, attrs ++ (← readNoteAttrs line src p))
        else if p.bracket == some .doubleSquare then
          some do
            let notes ← p.groups.foldlM (fun acc g => do
              pure (acc ++ (← musicHeads line (atomize (trimEof g))))) []
            pure (sfx, attrs ++ [.stack notes])
        else none
      | _ => none
    match next with
    | some step =>
      let (sfx, attrs) ← step
      let (sfx, attrs, n) ← readSuffixes line src more sfx attrs
      pure (sfx, attrs, n + 1)
    | none => pure (sfx, attrs, 0)

def dottedLength (unit : Frac) (dots : Nat) : Frac :=
  let d := min dots maxDots
  unit * Frac.make (Int.pow 2 (d + 1) - 1) (Int.pow 2 d)

def tupletLabel (f c : Int) (slots : Frac) : String :=
  if slots == Frac.ofInt c then toString c else s!"{c}:{f}"

variable {α : Type} [NoteHead α]

/-- Reads a note head at the front of the atoms with the suffixes touching it: the number of
atoms used and the note. What starts no head is warned about and skipped. -/
def readNote (cx : NoteScope) (pos unit : Frac) (a : Atom) (rest : List Atom) :
    Compiling (Nat × Option (MusicNote α)) := do
  match ← NoteHead.readHead cx.line (a :: rest) with
  | .note c used =>
    let (sfx, attrs, m) ← readSuffixes cx.line cx.src ((a :: rest).drop used) {} []
    let last := ((a :: rest)[used + m - 1]?).getD a
    pure (used + m, some ⟨cx.line, a.span.join last.span, pos, dottedLength unit sfx.dots, attrs,
      sfx, false, .note (NoteHead.attach c attrs)⟩)
  | .skip used => pure (used, none)
  | .notMine =>
    warn cx.line a.span.start (.unknownNoteChar a.text)
    pure (1, none)

/-- Reads the atoms from `pos` at `ratio`; the end position and what was read. The fuel
bounds the nesting of groups, each group using one. -/
def eatAtoms (cx : NoteScope) (fuel : Nat) (ratio pos : Frac) (out : Eaten α) :
    List Atom → Compiling (Frac × Eaten α)
  | [] => pure (pos, out)
  | a :: rest => do
    let unit := cx.props.unit * ratio
    match tupletAt (a :: rest), hf : fuel with
    | some (l, desc, g, used), f + 1 =>
      if l == 'D' then
        let (stop, out) ← eatAtoms cx f ratio pos out (innerAtoms g)
        eatAtoms cx fuel ratio stop out (rest.drop (used - 1))
      else
        let (fc, c) ← readTupletRatio cx.line desc
        let inner := ratio * Frac.make fc c
        if inner.isIndeterminate then
          warn cx.line g.span.start (.badNesting g.text)
          eatAtoms cx fuel ratio pos out (rest.drop (used - 1))
        else
          let (stop, out) ← eatAtoms cx f inner pos out (innerAtoms g)
          let slots := (stop - pos) / (cx.props.unit * inner)
          let deco : Decoration := ⟨.tuplet, some pos, some stop, some (tupletLabel fc c slots)⟩
          eatAtoms cx fuel ratio stop { out with decorations := out.decorations.push deco }
            (rest.drop (used - 1))
    | some (_, _, _, used), 0 => eatAtoms cx fuel ratio pos out (rest.drop (used - 1))
    | none, _ =>
      match a with
      | .char '-' n _ =>
        let note : MusicNote α := ⟨cx.line, ⟨n, n + 1⟩, pos, unit, [], {}, out.notes.isEmpty,
          .extend⟩
        eatAtoms cx fuel ratio (pos + unit) { out with notes := out.notes.push note } rest
      | .pair p _ =>
        if p.bracket == some .paren then
          let reduced := ratio * cx.props.reduction
          match reduced.isIndeterminate, _hf : fuel with
          | false, f + 1 =>
            let (stop, out) ← eatAtoms cx f reduced pos out (innerAtoms p)
            eatAtoms cx fuel ratio stop out rest
          | false, 0 => eatAtoms cx fuel ratio pos out rest
          | true, _ =>
            warn cx.line p.span.start (.badNesting p.text)
            eatAtoms cx fuel ratio pos out rest
        else
          warn cx.line p.span.start (.unknownNoteToken p.text)
          eatAtoms cx fuel ratio pos out rest
      | .char c n _ =>
        if c == '~' || c == '*' || c == '.' then
          warn cx.line n (.danglingSuffix (String.ofList [c]))
          eatAtoms cx fuel ratio pos out rest
        else
          let (k, note) ← readNote cx pos unit a rest
          let pos := (note.map (pos + ·.length)).getD pos
          let out := { out with notes := (note.map out.notes.push).getD out.notes }
          eatAtoms cx fuel ratio pos out (rest.drop (k - 1))
      | .str .. => do
        let (k, note) ← readNote cx pos unit a rest
        let pos := (note.map (pos + ·.length)).getD pos
        let out := { out with notes := (note.map out.notes.push).getD out.notes }
        eatAtoms cx fuel ratio pos out (rest.drop (k - 1))
termination_by atoms => (fuel, atoms.length)
decreasing_by
  all_goals simp only [Prod.lex_def, List.length_drop, List.length_cons]
  all_goals omega

/-- The swing of a position: within each period, the first half is stretched to two thirds
of it and the second half pressed into the last third. -/
def warp (period x : Frac) : Frac :=
  let base := period * Frac.ofInt (x / period).floor
  let r := x - base
  let half := period * Frac.make 1 2
  base + if r ≤ half then r * Frac.make 4 3 else period * Frac.make 2 3 + (r - half) * Frac.make 2 3

def Eaten.swing (period : Frac) (out : Eaten α) : Eaten α :=
  { notes := out.notes.map fun n =>
      let start := warp period n.startPos
      { n with startPos := start, length := warp period (n.startPos + n.length) - start }
    decorations := out.decorations.map fun d =>
      { d with startPos := d.startPos.map (warp period), endPos := d.endPos.map (warp period) } }

/-- The notes and decorations of a section's pieces and its written length in quarters. -/
def readNotes (cx : NoteScope) (items : List Piece) : Compiling (Eaten α × Frac) := do
  let (total, out) ← eatAtoms cx (Piece.groupDepth items) 1 0 {} (atomize items)
  match cx.props.meter.bind (·.swing.period) with
  | some p => pure (out.swing p, total)
  | none => pure (out, total)

theorem warp_half : warp 1 (Frac.make 1 2) = Frac.make 2 3 := by decide

end Jianpu
