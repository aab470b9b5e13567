import Jianpu.Source.Bracket
/-!
# Chunks of a line's content

The readers of properties, jumpers, lyrics and sections see a command line's content as
pieces (tokens and bracket pairs) and cut text out of the line by span.

* `LineText` — the trimmed text of a command line with the position it starts at;
  `LineText.slice` cuts the text of a span, held within the text.
* `Chunk` — a run of pieces that touch one another, with their joint span and text: what a
  space-separated word of the content is.
* `chunks` — the chunks of a list of pieces.
* `groupSpan` — the span from the first to the last piece of a group.
* `propTexts` — the texts of the groups of a line's properties, token contents joined.
-/

namespace Jianpu

/-- The trimmed text of a command line and the position of its first character. -/
structure LineText where
  chars : Array Char
  offset : Nat
  deriving Inhabited

namespace LineText

def ofLine (g : GroupedLine) : LineText := ⟨g.text.toList.toArray, g.textOffset⟩

/-- The characters of a span, held within the text. -/
def slice (t : LineText) (s : Span) : String :=
  let start := min (s.start - t.offset) t.chars.size
  let stop := max start (min (s.stop - t.offset) t.chars.size)
  String.ofList (t.chars.extract start stop).toList

end LineText

/-- Pieces that touch one another, with their joint span and the text of it. -/
structure Chunk where
  items : List Piece
  span : Span
  text : String
  deriving Inhabited

/-- Cuts pieces into runs, a piece joining the run before it when it starts where the run
ends. -/
def touchingRuns (items : List Piece) : List (List Piece × Span) :=
  (items.foldl (fun (acc : Array (List Piece × Span)) p =>
    match acc.back? with
    | some (run, span) =>
      if span.stop == p.span.start then acc.pop.push (run ++ [p], span.join p.span)
      else acc.push ([p], p.span)
    | none => acc.push ([p], p.span)) #[]).toList

def chunks (src : LineText) (items : List Piece) : List Chunk :=
  (touchingRuns items).map fun (run, span) => ⟨run, span, src.slice span⟩

/-- The span from the first to the last piece of a group. -/
def groupSpan (group : List Piece) : Option Span :=
  match group.head?, group.getLast? with
  | some a, some b => some (a.span.join b.span)
  | _, _ => none

/-- The text of each group of properties that holds something: its tokens' contents
joined. -/
def propTexts : Option Bracketed → List String
  | none => []
  | some b => b.nonEmptyGroups.map fun g =>
    String.join (g.filterMap Piece.asToken |>.map (·.content))

end Jianpu
