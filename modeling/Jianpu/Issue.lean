import Jianpu.Json
import Jianpu.Decimal.Integer
/-!
# Issues

Nothing in a score stops the compiler: every problem it meets becomes an `Issue` at a line and
character of the text, and the compiler goes on. An issue has a severity, a `Problem` that
says what is wrong, and the message of that problem.

* `Severity` — notice, non-standard, warning, error, fatal, in rising order.
* `Problem` — one constructor per kind of problem, carrying what its message names.
* `Problem.key`, `Problem.template`, `Problem.args` — the stable name of the kind, its
  message with `${i}` holes, and what fills the holes.
* `fillTemplate` — replaces each hole `${i}` by the `i`-th argument; a hole whose index is
  no number or has no argument stays as written.
* `Journal`, `Compiling` — the issues raised so far, in order, and the fresh serial
  numbers handed out to sections; the state that compilation threads through.
-/

namespace Jianpu

/-- How serious an issue is. -/
inductive Severity where
  | notice | unstd | warning | error | fatal
  deriving DecidableEq, Repr, Inhabited

def Severity.name : Severity → String
  | .notice => "notice"
  | .unstd => "unstd"
  | .warning => "warning"
  | .error => "error"
  | .fatal => "fatal"

/-- The place of a severity in the order of alarm, from notices up. -/
def Severity.rank : Severity → Nat
  | .notice => 0
  | .unstd => 1
  | .warning => 2
  | .error => 3
  | .fatal => 4

/-- What is wrong, with what the message names. -/
inductive Problem where
  | unclosedString
  | invalidEscape (text : String)
  | unclosedComment
  | unreadableLine
  | badCommandFormat
  | unknownCommand (head : String)
  | duplicateUnique (head : String)
  | lackRequired (head level : String)
  | emptyTree (level : String)
  | wrongSpeciality (level : String)
  | specialChildren (level : String)
  | redundantProps (head : String)
  | lackProps (head : String)
  | unclosedBracket (glyph : String)
  | unpairedBracket (glyph : String)
  | transposeRange (value clamped : Float)
  | unequalBeats (sum value : Int)
  | badBeats (text : String)
  | badQpm (text : String)
  | badTuning (text : String)
  | badReduction (text : String)
  | renderUnknownKey (key : String)
  | renderUnknownValue (key value : String)
  | renderBadFormat (text : String)
  | unknownSectionSeparator (glyph : String)
  | separatorBegin (glyph : String)
  | separatorEnd (glyph : String)
  | separatorAttrPosition (name : String)
  | unknownSeparatorAttr (text : String)
  | emptySection
  | unknownNoteChar (text : String)
  | unknownNoteToken (text : String)
  | danglingAccidental (glyphs : String)
  | danglingSuffix (text : String)
  | badTriplet (text : String)
  | badNesting (text : String)
  | unknownNoteAttr (text : String)
  | badOmit (text : String)
  | badJumper (text : String)
  | jumperRange (first last count : Nat)
  | badLyricToken (text : String)
  | lyricsExceedNotes (count : Nat)
  | unclosedDecoration (what : String)
  | repeatConflict (index iteration : Nat)
  | repeatOverflow (limit : Nat)
  | beatsMismatch (measure : Nat)
  | qpmMismatch (measure : Nat)
  deriving Inhabited

namespace Problem

/-- The stable name of the kind of problem. -/
def key : Problem → String
  | unclosedString => "unclosed_string"
  | invalidEscape .. => "invalid_escape"
  | unclosedComment => "unclosed_comment"
  | unreadableLine => "wtf_line"
  | badCommandFormat => "bad_command_format"
  | unknownCommand .. => "unknown_command"
  | duplicateUnique .. => "duplicate_unique"
  | lackRequired .. => "lack_required"
  | emptyTree .. => "empty_tree"
  | wrongSpeciality .. => "wrong_speciality"
  | specialChildren .. => "special_children"
  | redundantProps .. => "redundant_props"
  | lackProps .. => "lack_props"
  | unclosedBracket .. => "unclosed_bracket"
  | unpairedBracket .. => "unpaired_bracket"
  | transposeRange .. => "transpose_range"
  | unequalBeats .. => "unequal_beats"
  | badBeats .. => "bad_beats"
  | badQpm .. => "bad_qpm"
  | badTuning .. => "bad_tuning"
  | badReduction .. => "bad_reduction"
  | renderUnknownKey .. => "rp_unknown_key"
  | renderUnknownValue .. => "rp_unknown_value"
  | renderBadFormat .. => "rp_bad_format"
  | unknownSectionSeparator .. => "unknown_section_separator"
  | separatorBegin .. => "separator_begin"
  | separatorEnd .. => "separator_end"
  | separatorAttrPosition .. => "separator_attr_position"
  | unknownSeparatorAttr .. => "unknown_separator_attr"
  | emptySection => "empty_section"
  | unknownNoteChar .. => "unknown_note_char"
  | unknownNoteToken .. => "unknown_note_token"
  | danglingAccidental .. => "dangling_accidental"
  | danglingSuffix .. => "dangling_suffix"
  | badTriplet .. => "bad_triplet"
  | badNesting .. => "bad_nesting"
  | unknownNoteAttr .. => "unknown_note_attr"
  | badOmit .. => "bad_omit"
  | badJumper .. => "bad_jumper"
  | jumperRange .. => "jumper_range"
  | badLyricToken .. => "bad_lyric_token"
  | lyricsExceedNotes .. => "lyrics_exceed_notes"
  | unclosedDecoration .. => "unclosed_decoration"
  | repeatConflict .. => "repeat_conflict"
  | repeatOverflow .. => "repeat_overflow"
  | beatsMismatch .. => "beats_mismatch"
  | qpmMismatch .. => "qpm_mismatch"

/-- The message of the kind of problem, with holes `${i}` for its arguments. -/
def template : Problem → String
  | unclosedString => "String literal is not closed"
  | invalidEscape .. => "Invalid escape sequence '${0}'"
  | unclosedComment => "Block comment is not closed"
  | unreadableLine => "Cannot understand this line; it is ignored"
  | badCommandFormat =>
    "Command properties must be enclosed in '[...]' right after the command head"
  | unknownCommand .. => "Unknown command '${0}'"
  | duplicateUnique .. => "Command '${0}' may only appear once here; this line is ignored"
  | lackRequired .. => "Required command '${0}' is missing in this ${1}; the ${1} is discarded"
  | emptyTree .. => "This ${0} is empty and is discarded"
  | wrongSpeciality .. => "Text commands cannot be mixed with music commands in one ${0}"
  | specialChildren .. => "A text ${0} cannot contain nested blocks; they are discarded"
  | redundantProps .. => "Command '${0}' does not take properties"
  | lackProps .. => "Command '${0}' requires properties"
  | unclosedBracket .. => "Bracket '${0}' is not closed"
  | unpairedBracket .. => "Bracket '${0}' has no opening partner and is ignored"
  | transposeRange .. => "Transposition ${0} is out of range and was clamped to ${1}"
  | unequalBeats .. => "Beat components add up to ${0}, but the time signature says ${1}"
  | badBeats .. => "Invalid time signature '${0}'"
  | badQpm .. => "Invalid speed '${0}'"
  | badTuning .. => "Invalid tuning '${0}'"
  | badReduction .. => "Invalid reduction '${0}'"
  | renderUnknownKey .. => "Unknown render property '${0}'"
  | renderUnknownValue .. => "Invalid value '${1}' for render property '${0}'"
  | renderBadFormat .. => "Render properties must be written as key=value, got '${0}'"
  | unknownSectionSeparator .. => "Unknown section separator '${0}'"
  | separatorBegin .. => "Separator '${0}' cannot open a row"
  | separatorEnd .. => "Separator '${0}' cannot close a row"
  | separatorAttrPosition .. => "Separator attribute '${0}' is not allowed in this position"
  | unknownSeparatorAttr .. => "Unknown separator attribute '${0}'"
  | emptySection => "Empty section"
  | unknownNoteChar .. => "Unknown note character '${0}'"
  | unknownNoteToken .. => "Unexpected '${0}' in note row"
  | danglingAccidental .. => "Accidental '${0}' is not followed by a note"
  | danglingSuffix .. => "'${0}' must follow a note"
  | badTriplet .. => "Invalid tuplet descriptor '${0}'; default ratio used"
  | badNesting .. => "Group '${0}' is nested too deeply and is ignored"
  | unknownNoteAttr .. => "Unknown note attribute '${0}'"
  | badOmit .. => "Invalid omission '${0}'"
  | badJumper .. => "Invalid jumper '${0}'"
  | jumperRange .. => "Jumper range ${0}-${1} is outside the ${2} sections of this fragment"
  | badLyricToken .. => "Unexpected '${0}' in lyrics"
  | lyricsExceedNotes .. => "${0} lyric syllables have no note to attach to"
  | unclosedDecoration .. => "${0} started here is never closed"
  | repeatConflict .. => "Section ${0} is played twice in iteration ${1}"
  | repeatOverflow .. => "Repeat structure expands beyond ${0} iterations; playback is truncated"
  | beatsMismatch .. => "Voices disagree on the time signature in section ${0}"
  | qpmMismatch .. => "Voices disagree on the speed in section ${0}"

/-- What fills the holes of the message, as text; doubles in running-text form. -/
def args : Problem → List String
  | invalidEscape t | unknownCommand t | duplicateUnique t | emptyTree t
  | wrongSpeciality t | specialChildren t | redundantProps t | lackProps t
  | unclosedBracket t | unpairedBracket t | badBeats t | badQpm t | badTuning t
  | badReduction t | renderUnknownKey t | renderBadFormat t | unknownSectionSeparator t
  | separatorBegin t | separatorEnd t | separatorAttrPosition t | unknownSeparatorAttr t
  | unknownNoteChar t | unknownNoteToken t | danglingAccidental t | danglingSuffix t
  | badTriplet t | badNesting t | unknownNoteAttr t | badOmit t | badJumper t
  | badLyricToken t | unclosedDecoration t => [t]
  | lackRequired a b | renderUnknownValue a b => [a, b]
  | transposeRange v c => [Decimal.plainText v, Decimal.plainText c]
  | unequalBeats s v => [toString s, toString v]
  | jumperRange a b c => [toString a, toString b, toString c]
  | lyricsExceedNotes n | repeatOverflow n | beatsMismatch n | qpmMismatch n => [toString n]
  | repeatConflict s i => [toString s, toString i]
  | unclosedString | unclosedComment | unreadableLine | badCommandFormat | emptySection => []

end Problem

/-- The text a hole `${inner}` stands for: the argument of that index, or the hole as written
when the index is no number or has no argument. -/
def holeText (args : List String) (inner : List Char) : String :=
  match (Decimal.readU64 (String.ofList inner)).bind (args[·]?) with
  | some a => a
  | none => "$\x7b" ++ String.ofList inner ++ "\x7d"

mutual
/-- Copies template text to `acc` up to the next hole. -/
def fillChars (args : List String) (acc : String) : List Char → String
  | [] => acc
  | '$' :: '{' :: rest => fillHole args acc [] rest
  | c :: rest => fillChars args (acc.push c) rest

/-- Reads the index of a hole up to its `}`; a hole that is never closed is copied as
written. `inner` holds the index read so far, last character first. -/
def fillHole (args : List String) (acc : String) (inner : List Char) : List Char → String
  | [] => acc ++ "$\x7b" ++ String.ofList inner.reverse
  | '}' :: rest => fillChars args (acc ++ holeText args inner.reverse) rest
  | c :: rest => fillHole args acc (c :: inner) rest
end

def fillTemplate (template : String) (args : List String) : String :=
  fillChars args "" template.toList

/-- A problem found at a character of a line. -/
structure Issue where
  line : Nat
  index : Nat
  severity : Severity
  problem : Problem
  deriving Inhabited

namespace Issue

def message (i : Issue) : String :=
  fillTemplate i.problem.template i.problem.args

/-- The issue as a record of line, index, severity, key, template, arguments and message. -/
def toJson (i : Issue) : Json :=
  .obj [("lineNumber", .nat i.line), ("index", .nat i.index),
    ("severity", .str i.severity.name), ("key", .str i.problem.key),
    ("defaultTranslation", .str i.problem.template),
    ("args", .list .str i.problem.args), ("rendered", .str i.message)]

/-- The issue as one line of a report: line and character from 1, severity, key and
message. -/
def display (i : Issue) : String :=
  toString (i.line + 1) ++ ":" ++ toString (i.index + 1) ++ ": " ++ i.severity.name ++ " [" ++
    i.problem.key ++ "] " ++ i.message

end Issue

/-- What compilation has written down so far: the issues in the order they were raised, and
the next serial number for a section. -/
structure Journal where
  issues : Array Issue := #[]
  serial : Nat := 0
  deriving Inhabited

abbrev Compiling := StateM Journal

def raise (line index : Nat) (severity : Severity) (problem : Problem) : Compiling Unit :=
  modify fun j => { j with issues := j.issues.push ⟨line, index, severity, problem⟩ }

def warn (line index : Nat) (problem : Problem) : Compiling Unit :=
  raise line index .warning problem

def error (line index : Nat) (problem : Problem) : Compiling Unit :=
  raise line index .error problem

def freshSerial : Compiling Nat :=
  modifyGet fun j => (j.serial, { j with serial := j.serial + 1 })

theorem fillTemplate_hole : fillTemplate "a ${0} b" ["x"] = "a x b" := by decide +kernel

theorem fillTemplate_missing : fillTemplate "${3}" [] = "${3}" := by decide +kernel

end Jianpu
