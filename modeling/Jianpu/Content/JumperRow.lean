import Jianpu.Content.Chunk
import Jianpu.Content.BarlineAttr
import Jianpu.Music.Lyric
/-!
# Jumper rows

A jumper row (`J:`) lists ranges of sections of its fragment, counted from one: `3` or
`3-5`, each perhaps followed by `[…]` with pass numbers (`1.`, `2`) and an octave shift
(`+1`, `-2`). A range that does not start at one or more, or ends before it starts, and an
attribute that is neither, are reported and dropped.

* `readJumpers` — the jumpers of a row, sections counted from zero and the end exclusive.
-/

namespace Jianpu

/-- Digits of any script, and perhaps `-` and more digits: the two runs. -/
def rangeDigits (cs : List Char) : Option (List Char × Option (List Char)) :=
  let a := cs.takeWhile Text.isDecimalDigit
  if a.isEmpty then none
  else match cs.dropWhile Text.isDecimalDigit with
    | [] => some (a, none)
    | '-' :: b => if PropItem.isDigitRun b then some (a, some b) else none
    | _ => none

/-- A signed octave shift: a sign and digits, read as a 32-bit integer. -/
def octaveOf (cs : List Char) : Option Int :=
  match cs with
  | c :: rest =>
    if (c = '+' || c = '-') && PropItem.isDigitRun rest then
      Decimal.readI32 (String.ofList (cs.dropWhile (· = '+')))
    else none
  | [] => none

/-- Reads one chunk of a jumper row. -/
def readJumper (line : Nat) (src : LineText) (c : Chunk) : Compiling (Option Jumper) := do
  let attrs := (c.items.getLast?.bind Piece.asPair).filter fun p =>
    p.bracket == some .square && c.items.length > 1
  let head := match attrs with
    | some p => src.slice ⟨c.span.start, p.span.start⟩
    | none => c.text
  match rangeDigits head.toList with
  | none =>
    warn line c.span.start (.badJumper c.text)
    return none
  | some (a, b) =>
    let some start := Decimal.readU64 (String.ofList a) | return none
    let stop ← match b with
      | some b => match Decimal.readU64 (String.ofList b) with
        | some v => pure v
        | none => return none
      | none => pure start
    if start == 0 || stop < start then
      warn line c.span.start (.badJumper c.text)
      return none
    let mut j : Jumper := ⟨start - 1, stop, [], 0, c.span⟩
    for group in (attrs.map Bracketed.nonEmptyGroups).getD [] do
      let some span := groupSpan group | continue
      let text := src.slice span
      let pass := (BarlineAttr.passDigits text.toList).bind fun ds =>
        (Decimal.readU32 (String.ofList ds)).filter (· > 0)
      match pass with
      | some n => j := { j with iterations := j.iterations ++ [n] }
      | none =>
        match octaveOf text.toList with
        | some o => j := { j with octave := o }
        | none => warn line span.start (.badJumper text)
    return some j

def readJumpers (line : Nat) (src : LineText) (items : List Piece) : Compiling (List Jumper) :=
  (chunks src items).filterMapM (readJumper line src)

end Jianpu
