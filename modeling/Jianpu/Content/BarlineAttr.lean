import Jianpu.Content.PropItem
import Jianpu.Music.Section
/-!
# Barline attributes

The words that may stand in the brackets around a barline: `reset`, `$` (segno), `@`
(portal), `D.S.`, `D.C.`, `Fine.` (the final points optional), `xN` (play a repeat `N` times),
`N` or `N.` (a volta played on pass `N`), `w=` a positive weight, and those property items
that change the music from the barline on: a transposition, a key, a tempo, a time
signature. Any other word is reported and dropped.

* `BarlineAttr.parse` — one word.
-/

namespace Jianpu

namespace BarlineAttr

def positive (cs : List Char) : Option Nat :=
  (Decimal.readU32 (String.ofList cs)).filter (· > 0)

/-- Digits of any script, then an optional point, then nothing: the digits. -/
def passDigits (cs : List Char) : Option (List Char) :=
  let ds := cs.takeWhile Text.isDecimalDigit
  if ds.isEmpty then none
  else match cs.dropWhile Text.isDecimalDigit with
    | [] | ['.'] => some ds
    | _ => none

/-- Reads one word of a barline's brackets; warnings go to `line` at `index`. -/
def parse (line index : Nat) (text : String) : Compiling (Option BarlineAttr) := do
  match text with
  | "reset" => return some reset
  | "$" => return some segno
  | "@" => return some portal
  | "D.S." | "D.S" => return some (jump .dalSegno)
  | "D.C." | "D.C" => return some (jump .daCapo)
  | "Fine." | "Fine" => return some (jump .fine)
  | _ => pure ()
  let cs := text.toList
  if let 'x' :: ds := cs then
    if PropItem.isDigitRun ds then
      if let some n := positive ds then return some (times n)
  if let some ds := passDigits cs then
    if let some n := positive ds then return some (iter n)
  if let some w := Text.dropPrefix text "w=" then
    match (Decimal.readFloat w).filter fun w => w.isFinite && w > 0.0 with
    | some w => return some (weight w)
    | none =>
      warn line index (.unknownSeparatorAttr text)
      return none
  match ← PropItem.parse line index text with
  | some (.transpose v) => return some (shift (.transpose v))
  | some (.base b) => return some (shift (.tuning b))
  | some (.tempo t) => return some (tempo t)
  | some (.meter m) => return some (meter m)
  | some (.reduction _) | some (.extra _) =>
    warn line index (.unknownSeparatorAttr text)
    return none
  | none => return none

end BarlineAttr

end Jianpu
