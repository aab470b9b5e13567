/-!
# Cutting texts

Small cuts of a text used throughout the reading of scores, each at the first place it
applies:

* `splitOnce` — the parts before and after the first occurrence of a character;
* `dropPrefix`, `dropSuffix` — the text without a given start or end, when it has it;
* `splitOn` — all parts between occurrences of a character, at least one.
-/

namespace Jianpu.Text

/-- The parts of a character list before and after the first `c`. -/
def splitOnceChars (cs : List Char) (c : Char) : Option (List Char × List Char) :=
  match cs.span (· != c) with
  | (before, _ :: after) => some (before, after)
  | (_, []) => none

def splitOnce (s : String) (c : Char) : Option (String × String) :=
  (splitOnceChars s.toList c).map fun (a, b) => (String.ofList a, String.ofList b)

/-- The rest of a character list after a given start. -/
def dropPrefixChars : List Char → List Char → Option (List Char)
  | [], cs => some cs
  | p :: ps, c :: cs => if p = c then dropPrefixChars ps cs else none
  | _ :: _, [] => none

def dropPrefix (s pre : String) : Option String :=
  (dropPrefixChars pre.toList s.toList).map String.ofList

def dropSuffix (s suf : String) : Option String :=
  (dropPrefixChars suf.toList.reverse s.toList.reverse).map fun r => String.ofList r.reverse

/-- The pieces of a character list between occurrences of `c`; there is always one more
piece than occurrences. -/
def splitOnChars (cs : List Char) (c : Char) : List (List Char) :=
  cs.foldr (fun d acc =>
    if d = c then [] :: acc
    else match acc with
      | p :: ps => (d :: p) :: ps
      | [] => [[d]]) [[]]

def splitOn (s : String) (c : Char) : List String :=
  (splitOnChars s.toList c).map String.ofList

theorem splitOnce_eq : splitOnce "a=b=c" '=' = some ("a", "b=c") := by decide +kernel

end Jianpu.Text
