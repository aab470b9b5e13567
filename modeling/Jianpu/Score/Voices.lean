import Jianpu.Score.Timeline
/-!
# Laying fragments end to end

The fragments of a music article are laid end to end. A fragment takes as many columns as
its widest row, an omission `...n` counting `n` columns; a bare `...` fills what the row
lacks of that width. Each part of the fragment joins the voice of its signature, a new
voice starting where the fragment starts; every voice is then padded with placeholders to
the fragment's end, and the lyric lines of a part are followed the same way, by their tags
and passes.

Jumpers of a fragment are shifted to its place on the axis, those that reach beyond the
fragment cut at its end with a warning. A placeholder takes the properties of the first
voice that has a section written at its column.

* `expandRow` — a row's sections spread over a fragment's columns.
* `Timeline.ofArticle` — the timeline of an article node.
-/

namespace Jianpu

variable {α : Type}

/-- Columns that sections take once their omissions are counted out. -/
def writtenWidth (ss : List (Section α)) : Nat :=
  ss.foldl (fun n s => n + match s.body with
    | .omit (some k) => max k 1
    | _ => 1) 0

def padRow (row : Array (Section α)) (len : Nat) : Compiling (Array (Section α)) :=
  (List.range (len - row.size)).foldlM (fun r _ => do
    pure (r.push (Section.nullish 0 (← freshSerial) {}))) row

/-- A row's sections over `count` columns: an omission `...n` copied `n` times, a bare `...`
taking what the row lacks, the rest cut off or padded. -/
def expandRow (ss : List (Section α)) (count : Nat) : Compiling (Array (Section α)) := do
  let (out, _) := ss.foldl (fun ((out, fill) : Array (Section α) × Nat) s =>
    let (copies, fill) := match s.body with
      | .omit (some n) => (max n 1, fill)
      | .omit none => (1 + fill, 0)
      | _ => (1, fill)
    (out ++ Array.replicate copies s, fill)) (#[], count - writtenWidth ss)
  padRow (out.extract 0 count) count

/-- Adds a row's sections as the `i`-th row of its kind, its earlier columns padded. -/
def appendRow (rows : Array (Array (Section α))) (i : Nat) (ss : List (Section α))
    (offset count : Nat) : Compiling (Array (Array (Section α))) := do
  let rows := rows ++ Array.replicate (i + 1 - rows.size) #[]
  let row ← padRow (rows.getD i #[]) offset
  let row := row ++ (← expandRow ss count)
  pure (rows.setIfInBounds i row)

/-- A signature: the tags joined, and how many parts before it carried the same tags. -/
def signatureOf (tags : List String) (counts : List (String × Nat)) :
    String × List (String × Nat) :=
  let key := String.intercalate "," tags
  let n := (counts.lookup key).getD 0
  (s!"{key}#{n}", (key, n + 1) :: counts.filter (·.1 != key))

namespace LineTree

/-- The render settings of a node's `Rp` line. -/
def renderPropsOf (t : LineTree TypedLine) : RenderProps :=
  match t.unique "Rp" with
  | some ⟨_, _, _, .renderProps p⟩ => p
  | _ => {}

/-- The text of a node's unique line with the given head. -/
def textOf (t : LineTree TypedLine) (head : String) : Option String :=
  match t.unique head with
  | some ⟨_, _, _, .text s⟩ => some s
  | _ => none

def textsOf (t : LineTree TypedLine) (c : Command) : List String :=
  t.lines.filterMap fun l => if l.command == c then
    match l.content with
    | .text s => some s
    | _ => none
  else none

/-- The tags of a part: those of its `N` row. -/
def partTags (t : LineTree TypedLine) : List String :=
  match t.unique "N" with
  | some ⟨_, _, _, .notes r⟩ => r.tags
  | _ => []

/-- The columns a fragment takes: the widest row of its parts and their lyric lines. -/
def fragmentWidth (t : LineTree TypedLine) : Nat :=
  t.children.foldl (fun w part =>
    (part.lines ++ part.children.flatMap (·.lines)).foldl (fun w l =>
      max w (match l.content with
        | .notes r => writtenWidth r.sections
        | .chords r => writtenWidth r.sections
        | .annotations r => writtenWidth r.sections
        | .force r => writtenWidth r.sections
        | _ => 0)) w) 0

end LineTree

namespace Voice

def new (signature : String) (tags : List String) (offset : Nat) : Compiling Voice := do
  pure ⟨signature, tags, ← padRow #[] offset, #[], #[], #[], #[]⟩

/-- The voice with every row padded to `len` columns. -/
def pad (v : Voice) (len : Nat) : Compiling Voice := do
  pure { v with
    notes := ← padRow v.notes len
    chords := ← v.chords.mapM (padRow · len)
    annotations := ← v.annotations.mapM (padRow · len)
    forces := ← v.forces.mapM (padRow · len)
    verses := ← v.verses.mapM fun l => do
      match l.substitute with
      | some s => pure { l with substitute := some (← padRow s len) }
      | none => pure l }

/-- Adds a lyric line of a part at column `offset` to the verse line of its signature. -/
def addVerse (offset count : Nat) (acc : Voice × List (String × Nat))
    (lyric : LineTree TypedLine) : Compiling (Voice × List (String × Nat)) := do
  let (v, counts) := acc
  let some ⟨line, _, _, .lyrics verse⟩ := lyric.unique "L" | pure acc
  let (sig, counts) := signatureOf (verse.tags ++ verse.passes.map (s!"{·}.")) counts
  let verses := if v.verses.any (·.signature == sig) then v.verses
    else v.verses.push ⟨sig, verse.tags, verse.passes, none, none, #[], []⟩
  let i := (verses.findIdx? (·.signature == sig)).getD 0
  let target := verses.getD i default
  let target := if target.label.isSome then target
    else { target with label := lyric.textOf "La" }
  let target ← match lyric.unique "Ln" with
    | some ⟨_, _, _, .notes melody⟩ => do
      let sub ← padRow (target.substitute.getD #[]) offset
      pure { target with substitute := some (sub ++ (← expandRow melody.sections count)) }
    | _ => pure target
  let target := { target with pending := target.pending ++ [⟨line, offset, offset + count, verse.tokens⟩] }
  pure ({ v with verses := verses.setIfInBounds i target }, counts)

/-- Adds a part's rows at column `offset`, over `count` columns. -/
def fill (v : Voice) (part : LineTree TypedLine) (offset count : Nat) : Compiling Voice := do
  let step := fun ((v, c, a, f) : Voice × Nat × Nat × Nat) (l : TypedLine) => do
    match l.content, l.command with
    | .notes r, .notes =>
      let notes ← padRow v.notes offset
      pure ({ v with notes := notes ++ (← expandRow r.sections count) }, c, a, f)
    | .chords r, _ => pure ({ v with chords := ← appendRow v.chords c r.sections offset count },
        c + 1, a, f)
    | .annotations r, _ =>
      pure ({ v with annotations := ← appendRow v.annotations a r.sections offset count },
        c, a + 1, f)
    | .force r, _ => pure ({ v with forces := ← appendRow v.forces f r.sections offset count },
        c, a, f + 1)
    | _, _ => pure (v, c, a, f)
  let (v, _) ← part.lines.foldlM step (v, 0, 0, 0)
  let (v, _) ← part.children.foldlM (addVerse offset count) (v, [])
  pure v

/-- Placeholders of the voice at column `k` take the given properties. -/
def setPlaceholderProps (v : Voice) (k : Nat) (props : MusicProps) : Voice :=
  let fillRow {β : Type} (row : Array (Section β)) : Array (Section β) :=
    row.modify k fun s => if s.isNullish then { s with props } else s
  { v with
    notes := fillRow v.notes
    chords := v.chords.map fillRow
    annotations := v.annotations.map fillRow
    forces := v.forces.map fillRow
    verses := v.verses.map fun l => { l with substitute := l.substitute.map fillRow } }

end Voice

namespace Timeline

/-- Adds a fragment's parts and jumpers after the columns laid so far. -/
def addFragment (renderProps : RenderProps) (acc : Timeline × Nat)
    (fragment : LineTree TypedLine) : Compiling (Timeline × Nat) := do
  let (t, offset) := acc
  let count := fragment.fragmentWidth
  if count == 0 then return acc
  let addPart := fun ((voices, counts) : Array Voice × List (String × Nat)) part => do
    let tags := part.partTags
    let (sig, counts) := signatureOf tags counts
    let (voices, i) ← match voices.findIdx? (·.signature == sig) with
      | some i => pure (voices, i)
      | none => do pure (voices.push (← Voice.new sig tags offset), voices.size)
    let v ← (voices.getD i default).fill part offset count
    pure (voices.setIfInBounds i v, counts)
  let (voices, _) ← fragment.children.foldlM addPart (t.voices, [])
  let voices ← voices.mapM (·.pad (offset + count))
  let jumpers ← match fragment.unique "J" with
    | some ⟨line, _, _, .jumpers js⟩ => js.foldlM (fun (acc : Array Jumper) j => do
        if j.start ≥ count || j.stop > count then
          warn line j.span.start (.jumperRange (j.start + 1) j.stop count)
        if j.start ≥ count then pure acc
        else pure (acc.push ({ j with stop := min j.stop count }.shifted offset))) t.jumpers
    | _ => pure t.jumpers
  let range : FragmentRange :=
    ⟨fragment.line, offset, offset + count, renderProps.overlay fragment.renderPropsOf⟩
  pure ({ t with voices, jumpers, fragments := t.fragments.push range }, offset + count)

/-- Placeholders take the properties of the first voice written at their column. -/
def fillPlaceholderProps (t : Timeline) : Timeline :=
  let len := (t.voices[0]?.map (·.notes.size)).getD 0
  (List.range len).foldl (fun t k =>
    match t.reference k with
    | some ref => { t with voices := t.voices.map (·.setPlaceholderProps k ref.props) }
    | none => t) t

/-- The timeline of a music article under the document's render settings. -/
def ofArticle (docProps : RenderProps) (article : LineTree TypedLine) : Compiling Timeline := do
  let renderProps := docProps.overlay article.renderPropsOf
  let start : Timeline := ⟨article.line, article.textOf "S", renderProps, #[], #[], #[], #[]⟩
  let (t, _) ← article.children.foldlM (addFragment renderProps) (start, 0)
  pure t.fillPlaceholderProps

end Timeline

end Jianpu
