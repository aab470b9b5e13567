import Jianpu.Content.Notes
import Jianpu.Content.BarlineAttr
/-!
# Cutting a row into sections

A barline is a run of touching `|`, `/` and `:` symbols. Its attributes stand in three
places: a `{pre}` pair just before the run, an `[own]` pair touching its end and a `{post}`
pair after that. Between two barlines lies one section; a row that does not open or close
with a barline gets an empty `/` there.

* `BarlineRun`, `barlineRuns` — the runs of a row with their attribute pairs.
* `sectionSlots` — the barline before each section (none at an open edge) and the pieces of
  each section.
* `sectionReach` — the characters each section reaches, from the barline before it to the
  one after it.
* `PropsSource` — where each section's properties come from: a running context that the
  row's own barlines change (time, speed, transposition and key), or another row followed
  section by section.
* `readSections` — the sections of a row, the context after the last one and everything
  the row's barlines changed.

A section of `...` stands for omitted sections, `...n` for `n` of them (1 to 4096). A
section whose length differs from its time signature is marked shorter or longer, unless
the barline after it is a dashed one.
-/

namespace Jianpu

/-- A barline written in a row: its glyph, span and attribute pairs, and the pieces it
takes, its attributes included. -/
structure BarlineRun where
  glyph : String
  span : Span
  pre : Option Bracketed
  own : Option Bracketed
  post : Option Bracketed
  attrStart : Nat
  attrEnd : Nat
  deriving Inhabited

def Piece.isBarlineSymbol : Piece → Bool
  | .token t => t.kind == .symbol && (t.content == "|" || t.content == "/" || t.content == ":")
  | .pair .. => false

def Piece.pairOf? (p : Piece) (b : Bracket) : Option Bracketed :=
  if p.isPairOf b then p.asPair else none

/-- The end of a run of touching barline symbols that goes on at `e`. -/
def barlineEnd (items : Array Piece) (e : Nat) : Nat :=
  if h : e < items.size then
    if 0 < e && items[e].isBarlineSymbol &&
        items[e].span.start == (items[e - 1]?.map (·.span.stop)).getD 0 then
      barlineEnd items (e + 1)
    else e
  else e
termination_by items.size - e

/-- The barline runs of a row from piece `i` on, after those found already. -/
def barlineRunsFrom (items : Array Piece) (i : Nat) (runs : Array BarlineRun) :
    Array BarlineRun :=
  if h : i < items.size then
    if !items[i].isBarlineSymbol then barlineRunsFrom items (i + 1) runs
    else
      let stop := barlineEnd items (i + 1)
      let last := items[stop - 1]?.getD items[i]
      let runEnd := last.span.stop
      let glyph := String.join ((items.extract i stop).toList.filterMap Piece.asToken
        |>.map (·.content))
      let own := items[stop]? >>= fun p =>
        (p.pairOf? .square).filter (·.span.start == runEnd)
      let cursor := if own.isSome then stop + 1 else stop
      let post := items[cursor]? >>= (·.pairOf? .curly)
      let cursor := if post.isSome then cursor + 1 else cursor
      let taken := (runs.back?.map (·.attrEnd)).getD 0
      let pre := if i > taken then items[i - 1]? >>= (·.pairOf? .curly) else none
      let run : BarlineRun := ⟨glyph, items[i].span.join last.span, pre, own, post,
        if pre.isSome then i - 1 else i, cursor⟩
      barlineRunsFrom items (max cursor (i + 1)) (runs.push run)
  else runs
termination_by items.size - i

def barlineRuns (items : Array Piece) : List BarlineRun :=
  (barlineRunsFrom items 0 #[]).toList

/-- The barline before each section and after the last (none at an open edge of the row),
and the pieces of each section as a range of indices. -/
def sectionSlots (runs : List BarlineRun) (len : Nat) :
    List (Option BarlineRun) × List (Nat × Nat) :=
  match runs.head?, runs.getLast? with
  | some first, some last =>
    let inner := (runs.zip runs.tail).map fun (r, s) => (r.attrEnd, s.attrStart)
    let (slots, spans) :=
      if first.attrStart > 0 then ([none], [(0, first.attrStart)]) else ([], [])
    let slots := slots ++ runs.map some
    let spans := spans ++ inner
    if last.attrEnd < len then (slots ++ [none], spans ++ [(last.attrEnd, len)])
    else (slots, spans)
  | _, _ => if len > 0 then ([none, none], [(0, len)]) else ([], [])

def edges (items : Array Piece) : Nat × Nat :=
  ((items[0]?.map (·.span.start)).getD 0, (items.back?.map (·.span.stop)).getD 0)

/-- The characters each section of a row reaches: from the end of the barline before it
to the start of the barline after it, or the row's edge where there is none. -/
def sectionReach (items : List Piece) : List Span :=
  let items := items.toArray
  let (slots, spans) := sectionSlots (barlineRuns items) items.size
  let (edgeStart, edgeEnd) := edges items
  (List.range spans.length).map fun k =>
    let start := ((slots[k]?.join).map (·.span.stop)).getD edgeStart
    let stop := ((slots[k + 1]?.join).map (·.span.start)).getD edgeEnd
    ⟨start, max stop start⟩

/-- Where each section's properties come from. -/
inductive PropsSource where
  /-- This context, changed by the row's own barlines. -/
  | running (ctx : MusicProps)
  /-- Another row's sections in turn, the last one past its end, else the fallback. -/
  | track (track : List MusicProps) (fallback : MusicProps)

/-- The sections of a row, the context after the last barline and all that the row's
barlines changed. -/
structure RowSections (α : Type) where
  sections : List (Section α)
  finalProps : MusicProps
  variation : MusicPatch

/-- What reading a row needs: its line and the line's text. -/
structure RowScope where
  line : Nat
  src : LineText

namespace RowScope

/-- The attributes of one pair of a barline; an attribute out of its place is dropped with
a warning. -/
def readAttrs (rx : RowScope) (slot : AttrSlot) (atBegin atEnd : Bool) (p : Bracketed) :
    Compiling (List BarlineAttr) :=
  p.nonEmptyGroups.foldlM (fun out g => do
    let some span := groupSpan g | pure out
    let attr ← match g with
      | [.token t] =>
        if t.kind == .stringLiteral then pure (some (.label t.content))
        else BarlineAttr.parse rx.line span.start (rx.src.slice span)
      | _ => BarlineAttr.parse rx.line span.start (rx.src.slice span)
    let some attr := attr | pure out
    let misplaced := !attr.allowedIn slot
      || (slot == .own && atBegin && attr.forbiddenAtBegin)
      || (slot == .own && atEnd && attr.forbiddenAtEnd)
    if misplaced then
      warn rx.line span.start (.separatorAttrPosition attr.name)
      pure out
    else pure (out ++ [attr])) []

/-- The separator of a barline run; an unknown glyph is read as `/|` with an error, and a
glyph that cannot open or close a row is warned about there. -/
def separator (rx : RowScope) (run : BarlineRun) (atBegin atEnd : Bool) :
    Compiling Separator := do
  let barline ← match Barline.parse run.glyph with
    | some b => pure b
    | none => do
      error rx.line run.span.start (.unknownSectionSeparator run.glyph)
      pure .slashBar
  if atBegin && !atEnd && !barline.beginOk then
    warn rx.line run.span.start (.separatorBegin barline.glyph)
  if atEnd && !atBegin && !barline.endOk then
    warn rx.line run.span.start (.separatorEnd barline.glyph)
  let read (slot : AttrSlot) : Option Bracketed → Compiling (List BarlineAttr)
    | some p => rx.readAttrs slot atBegin atEnd p
    | none => pure []
  let pre ← read .pre run.pre
  let own ← read .own run.own
  let post ← read .post run.post
  pure ⟨barline, ⟨pre, own, post⟩, run.span⟩

/-- The changes of context that a barline's own attributes make: time, speed, key, and a
transposition added to the context's, held in range. -/
def variationOf (rx : RowScope) (sep : Separator) (ctx : MusicProps) : Compiling MusicPatch :=
  sep.attrs.own.foldlM (fun (patch : MusicPatch) attr => do
    match attr with
    | .meter m => pure { patch with meter := some m }
    | .tempo t => pure { patch with tempo := some t }
    | .shift (.transpose s) =>
      let t ← PropItem.clampTranspose rx.line sep.span.start (patch.transpose.getD ctx.transpose + s)
      pure { patch with transpose := some t }
    | .shift (.tuning b) => pure { patch with base := some b }
    | _ => pure patch) {}

def maxOmit : Nat := 4096

/-- The count of an omission `...n`: digits only, from 1 to 4096. -/
def omitCount (digits : List Char) : Option Nat :=
  if !digits.isEmpty && digits.all Char.isDigit then
    let n := digits.foldl (fun acc c => 10 * acc + (c.toNat - '0'.toNat)) 0
    if 1 ≤ n && n ≤ maxOmit then some n else none
  else none

/-- What a section holds: an error when nothing, an omission for `...`, else its notes. -/
def body {α : Type} [NoteHead α] (rx : RowScope) (content : List Piece) (span : Span)
    (props : MusicProps) (after : Barline) : Compiling (SectionBody α) := do
  if content.isEmpty then
    error rx.line span.start .emptySection
    return .empty
  let text := rx.src.slice span
  match text.toList with
  | '.' :: '.' :: '.' :: rest =>
    if rest.isEmpty then return .omit none
    match omitCount rest with
    | some n => return .omit (some n)
    | none =>
      error rx.line span.start (.badOmit text)
      return .empty
  | _ =>
    let (eaten, total) ← readNotes ⟨rx.line, rx.src, props⟩ content
    let validation := match constrainedLength props after with
      | some len => match Frac.compare total len with
        | .lt => .less
        | .gt => .more
        | .eq => .ok
      | none => .ok
    return .content ⟨eaten.notes.toList, eaten.decorations.toList, total, validation, false,
      false, false⟩

end RowScope

/-- The sections of a row's pieces, each with the properties it is read under. -/
def readSections {α : Type} [NoteHead α] (rx : RowScope) (items : List Piece)
    (source : PropsSource) : Compiling (RowSections α) := do
  let arr := items.toArray
  let (slots, spans) := sectionSlots (barlineRuns arr) arr.size
  let (edgeStart, edgeEnd) := edges arr
  let count := slots.length
  let separators ← slots.zipIdx.mapM fun (slot, k) => match slot with
    | some run => rx.separator run (k == 0) (k + 1 == count)
    | none => pure (Separator.virtualAt (if k == 0 then edgeStart else edgeEnd))
  let start : MusicProps := match source with
    | .running ctx => ctx
    | .track _ fallback => fallback
  let step := fun ((out, ctx, variation) : List (Section α) × MusicProps × MusicPatch)
      (((a, b), k) : (Nat × Nat) × Nat) => do
      let before := separators[k]?.getD default
      let after := separators[k + 1]?.getD default
      let (props, ctx, variation) ← match source with
        | .track track fallback =>
          pure ((track[k]? <|> track.getLast?).getD fallback, ctx, variation)
        | .running _ => do
          let patch ← rx.variationOf before ctx
          if patch.isEmpty then pure (ctx, ctx, variation)
          else
            let ctx := ctx.apply patch
            pure (ctx, ctx, variation.merge patch)
      let content := (arr.extract a b).toList
      let span := match content.head?, content.getLast? with
        | some p, some q => p.span.join q.span
        | _, _ => Span.emptyAt before.span.stop
      let body ← rx.body content span props after.barline
      let serial ← freshSerial
      let sec : Section α := ⟨⟨rx.line, k, serial⟩, span, 0, 0,
        ⟨before, after, after.barline.before⟩, props, false, body⟩
      pure (out ++ [sec], ctx, variation)
  let (sections, ctx, variation) ← spans.zipIdx.foldlM step ([], start, {})
  let finalProps := match source with
    | .track track fallback => track.getLast?.getD fallback
    | .running _ => ctx
  pure ⟨sections, finalProps, variation⟩

end Jianpu
