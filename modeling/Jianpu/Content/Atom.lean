import Jianpu.Content.Chunk
import Jianpu.Music.Note
/-!
# Atoms of a section and the heads of notes

The note reader sees a section as atoms: each character of a word or symbol, each string
literal and each bracket pair, with whether it touches the atom before it. Suffixes and
octave marks count only when they touch.

* `Atom`, `atomize`, `innerAtoms` — the atoms of pieces and of a pair's inside; the groups
  of a pair are joined again by a `,` atom at the end of each group, as a comma is also the
  octave-down mark.
* `HeadRead` — what reading a note head gives: a head and the atoms it used, atoms skipped
  after a warning, or nothing of this row's kind.
* `NoteHead` — how each kind of row reads its heads: `Pitch` (accidentals, a digit or drum,
  touching octave marks), `ChordName` and `TextMark` (a string or a run of touching word
  characters; `0` is empty), `ForceMark` (`0` or an accent character).
* `readNoteAttrs` — the attributes in `[...]` after a note: grace notes `g(...)` and
  `ga(...)`, slides `/` and `\`, ornaments and shifts `+n`/`-n`.
* `musicHeads` — the plain heads of a grace group or a stack.
-/

namespace Jianpu

/-- An atom of a section: a character, a string literal or a bracket pair, and whether it
touches the atom before it. -/
inductive Atom where
  | char (c : Char) (pos : Nat) (joined : Bool)
  | str (text : String) (span : Span) (joined : Bool)
  | pair (p : Bracketed) (joined : Bool)
  deriving Inhabited

namespace Atom

def joined : Atom → Bool
  | char _ _ j | str _ _ j | pair _ j => j

def span : Atom → Span
  | char _ p _ => ⟨p, p + 1⟩
  | str _ s _ => s
  | pair p _ => p.span

def char? : Atom → Option Char
  | char c _ _ => some c
  | _ => none

/-- The pair of a pair atom of the given kind. -/
def pairOf? (a : Atom) (b : Bracket) : Option Bracketed :=
  match a with
  | pair p _ => if p.bracket == some b then some p else none
  | _ => none

def text : Atom → String
  | char c _ _ => String.ofList [c]
  | str t _ _ => t
  | pair p _ => p.text

end Atom

/-- Atoms collected so far and where the last piece ended. -/
structure Atomizer where
  atoms : Array Atom := #[]
  prevEnd : Option Nat := none

namespace Atomizer

def touches (z : Atomizer) (n : Nat) : Bool := z.prevEnd == some n

/-- Adds the atoms of a piece; comments and ends of lines or text add none. -/
def push (z : Atomizer) (p : Piece) : Atomizer :=
  match p with
  | .token t =>
    match t.kind with
    | .word | .symbol =>
      let cs := t.content.toList.zipIdx
      let atoms := cs.foldl (fun acc (c, k) =>
        acc.push (.char c (t.span.start + k) (k > 0 || z.touches (t.span.start + k)))) z.atoms
      ⟨atoms, some t.span.stop⟩
    | .stringLiteral => ⟨z.atoms.push (.str t.content t.span (z.touches t.span.start)), some t.span.stop⟩
    | _ => z
  | .pair s .. => ⟨z.atoms.push (.pair (p.asPair.getD default) (z.touches s.start)), some s.stop⟩

def pushComma (z : Atomizer) (n : Nat) : Atomizer :=
  ⟨z.atoms.push (.char ',' n (z.touches n)), some (n + 1)⟩

end Atomizer

def atomize (items : List Piece) : List Atom :=
  (items.foldl Atomizer.push {}).atoms.toList

/-- The atoms inside a pair, a comma standing at the end of each group but the last. -/
def innerAtoms (p : Bracketed) : List Atom :=
  let z := p.groups.zipIdx.foldl (fun (z : Atomizer) (g, k) =>
    let z := if k = 0 then z
      else
        let prevEnd := match p.groups[k - 1]? >>= List.getLast? with
          | some eof => eof.span.start
          | none => p.span.start
        z.pushComma prevEnd
    (trimEof g).foldl Atomizer.push z) {}
  z.atoms.toList

/-- What reading a note head at an atom gives. -/
inductive HeadRead (α : Type) where
  /-- A head and the number of atoms it used. -/
  | note (c : α) (used : Nat)
  /-- Atoms skipped after a warning. -/
  | skip (used : Nat)
  /-- The atom starts no head of this row's kind. -/
  | notMine

/-- How a kind of row reads the head of a note from the atoms starting at it, and folds
the note's attributes into the head. -/
class NoteHead (α : Type) where
  readHead : Nat → List Atom → Compiling (HeadRead α)
  attach : α → List NoteAttr → α

def addShift (a b : Int) : Int := max (-2147483648) (min 2147483647 (a + b))

namespace Pitch

/-- The accidentals at the front, each after the first touching the one before: the
accidentals and how many atoms they take. -/
def accidentalRun : Bool → List Atom → List Accidental × Nat
  | first, .char c _ j :: more =>
    match Accidental.ofChar c with
    | some a =>
      if first || j then
        let (as, n) := accidentalRun false more
        (a :: as, n + 1)
      else ([], 0)
    | none => ([], 0)
  | _, _ => ([], 0)

/-- The touching octave marks at the front: `'` and `e` raise, `,` and `d` lower. The
octaves and how many atoms they take. -/
def octaveMarks : List Atom → Int × Nat
  | .char c _ true :: more =>
    let step : Option Int := match c with
      | '\'' | 'e' => some 1
      | ',' | 'd' => some (-1)
      | _ => none
    match step with
    | some s =>
      let (o, n) := octaveMarks more
      (o + s, n + 1)
    | none => (0, 0)
  | _ => (0, 0)

/-- Reads accidentals, a note character touching them and its octave marks. Accidentals
with no note after them are skipped with a warning. -/
def readHead (line : Nat) (atoms : List Atom) : Compiling (HeadRead Pitch) := do
  let (accs, n) := accidentalRun true atoms
  let fallback : Compiling (HeadRead Pitch) := do
    match accs, atoms with
    | _ :: _, a :: _ =>
      warn line a.span.start (.danglingAccidental (String.ofList (accs.map Accidental.glyph)))
      pure (.skip n)
    | _, _ => pure .notMine
  match atoms.drop n with
  | .char c _ j :: more =>
    if isMusicChar c && (n == 0 || j) then
      let (octave, m) := octaveMarks more
      pure (.note { char := c, accidentals := accs, octave } (n + 1 + m))
    else fallback
  | _ => fallback

/-- Adds the shifts among the attributes to the note's shift. -/
def attach (p : Pitch) (attrs : List NoteAttr) : Pitch :=
  let delta := attrs.foldl (fun acc a => match a with
    | .delta s => addShift acc s
    | _ => acc) 0
  { p with delta := addShift p.delta delta }

instance : NoteHead Pitch := ⟨readHead, attach⟩

end Pitch

/-- The touching characters at the front that `accept` takes, and how many. -/
def joinedRun (accept : Char → Bool) : List Atom → List Char × Nat
  | .char c _ true :: more =>
    if accept c then
      let (cs, n) := joinedRun accept more
      (c :: cs, n + 1)
    else ([], 0)
  | _ => ([], 0)

/-- A run of touching word characters at the front (with `#` when `sharp`), and how many
atoms it takes. -/
def wordRun (sharp : Bool) : List Atom → Option (String × Nat)
  | .char c _ _ :: more =>
    let accept := fun c => Text.isWordChar c || (sharp && c == '#')
    if accept c then
      let (cs, n) := joinedRun accept more
      some (String.ofList (c :: cs), n + 1)
    else none
  | _ => none

/-- A word read as a head: a string literal, or a run of word characters where `0` stands
for nothing. -/
def readWord (sharp : Bool) : List Atom → Option (String × Nat)
  | .str t _ _ :: _ => some (t, 1)
  | atoms => (wordRun sharp atoms).map fun (t, n) => (if t == "0" then "" else t, n)

instance : NoteHead ChordName :=
  ⟨fun _ atoms => pure ((readWord true atoms).elim .notMine fun (t, n) => .note ⟨t⟩ n),
   fun c _ => c⟩

instance : NoteHead TextMark :=
  ⟨fun _ atoms => pure ((readWord false atoms).elim .notMine fun (t, n) => .note ⟨t⟩ n),
   fun c _ => c⟩

/-- Reads `0` as no mark and an accent character as its mark. -/
def ForceMark.readHead : List Atom → HeadRead ForceMark
  | .char '0' _ _ :: _ => .note ⟨none⟩ 1
  | .char c _ _ :: _ => match ForceKind.ofChar c with
    | some k => .note ⟨some k⟩ 1
    | none => .notMine
  | _ => .notMine

instance : NoteHead ForceMark := ⟨fun _ atoms => pure (ForceMark.readHead atoms), fun c _ => c⟩

/-- The plain heads among atoms; what is no head is warned about, except a comma between
groups. -/
def musicHeads (line : Nat) : List Atom → Compiling (List Pitch)
  | [] => pure []
  | a :: rest => do
    match ← Pitch.readHead line (a :: rest) with
    | .note p n => return p :: (← musicHeads line (rest.drop (n - 1)))
    | .skip n => musicHeads line (rest.drop (n - 1))
    | .notMine =>
      if a.char? != some ',' then warn line a.span.start (.unknownNoteChar a.text)
      musicHeads line rest
termination_by atoms => atoms.length
decreasing_by all_goals simp only [List.length_drop, List.length_cons]; omega

/-- A shift in semitones, `+n` or `-n`, within 32-bit signed integers. -/
def readShift (text : String) : Option Int :=
  match text.toList with
  | '+' :: ds => digits ds
  | '-' :: ds => (digits ds).map (- ·)
  | _ => none
where
  digits (ds : List Char) : Option Int :=
    if ds.isEmpty || !ds.all Char.isDigit then none
    else Decimal.readI32 (String.ofList ds)

/-- The attributes in a `[...]` after a note, one per group that holds something; a group
that is no attribute is warned about. -/
def readNoteAttrs (line : Nat) (src : LineText) (p : Bracketed) : Compiling (List NoteAttr) :=
  p.nonEmptyGroups.foldlM (fun attrs g => do
    match g with
    | [.token head, inner@(.pair _ (some .paren) ..)] =>
      if head.content == "g" || head.content == "ga" then
        let notes ← musicHeads line (innerAtoms (inner.asPair.getD default))
        return attrs ++ [.grace (head.content == "ga") notes]
      plain attrs g
    | _ => plain attrs g) []
where
  plain (attrs : List NoteAttr) (g : List Piece) : Compiling (List NoteAttr) := do
    let some span := groupSpan g | pure attrs
    let text := src.slice span
    let attr : Option NoteAttr :=
      if text == "/" then some .slideIn
      else if text == "\\" then some .slideOut
      else match Decorator.parse text with
        | some d => some (.decorator d)
        | none => (readShift text).map .delta
    match attr with
    | some a => pure (attrs ++ [a])
    | none =>
      warn line span.start (.unknownNoteAttr text)
      pure attrs

theorem readShift_minus : readShift "-12" = some (-12) := by decide

theorem readShift_bare : readShift "3" = none := by decide

end Jianpu
