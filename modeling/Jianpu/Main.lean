import Jianpu.Compilation
/-!
# The command line

`jianpu SCORE [--config SETTINGS] [--output FILE] [--issues | --sequence]` compiles a score
file and prints its compiled record: the whole of it, only the issues, or only the
performances. Warnings and worse are told on the error stream, one per line. The program
ends with status 2 when an issue is fatal, and 1 when a file cannot be read or the settings
are refused.
-/

namespace Jianpu.Cli

/-- What the command line asks for. -/
structure Request where
  score : Option String := none
  settings : Option String := none
  output : Option String := none
  onlyIssues : Bool := false
  onlySequence : Bool := false

/-- Reads the arguments; `none` for one that is not understood. -/
def Request.ofArgs : List String → Request → Option Request
  | [], r => some r
  | "--config" :: p :: rest, r | "-c" :: p :: rest, r => Request.ofArgs rest { r with settings := some p }
  | "--output" :: p :: rest, r | "-o" :: p :: rest, r => Request.ofArgs rest { r with output := some p }
  | "--issues" :: rest, r => Request.ofArgs rest { r with onlyIssues := true }
  | "--sequence" :: rest, r => Request.ofArgs rest { r with onlySequence := true }
  | a :: rest, r =>
    if a.startsWith "-" || r.score.isSome then none else Request.ofArgs rest { r with score := some a }

def Request.record (r : Request) (c : Compilation) : Json :=
  if r.onlyIssues then .list Issue.toJson c.issues.toList
  else if r.onlySequence then c.sequencedJson
  else c.toJson

def readText (path : String) : IO (Except String String) := do
  try pure (.ok (← IO.FS.readFile path))
  catch e => pure (.error ("I/O error on " ++ path ++ ": " ++ toString e))

/-- Runs a request; the exit status. -/
def run (r : Request) (score : String) : IO UInt32 := do
  let settings ← match r.settings with
    | none => pure (.ok {})
    | some path => do
      match ← readText path with
      | .error e => pure (.error e)
      | .ok text => pure ((Settings.ofYaml text).mapError SettingsError.message)
  match settings with
  | .error e => IO.eprintln ("Error: " ++ e); pure 1
  | .ok settings =>
    match ← readText score with
    | .error e => IO.eprintln ("Error: " ++ e); pure 1
    | .ok text =>
      let c := Compilation.ofText settings text
      for i in c.alarming do IO.eprintln i.display
      let out := (r.record c).render
      match r.output with
      | some path =>
        IO.FS.writeFile path out
        IO.eprintln ("Wrote " ++ path)
      | none => IO.println out
      pure (if c.hasFatal then 2 else 0)

end Jianpu.Cli

/-- The program's entry. -/
def main (args : List String) : IO UInt32 := do
  match Jianpu.Cli.Request.ofArgs args {} with
  | some r =>
    match r.score with
    | some score =>
      if r.onlyIssues && r.onlySequence then
        IO.eprintln "Error: --issues cannot be used with --sequence"
        pure 1
      else Jianpu.Cli.run r score
    | none => IO.eprintln "usage: jianpu SCORE [--config SETTINGS] [--output FILE] [--issues | --sequence]"; pure 1
  | none => IO.eprintln "usage: jianpu SCORE [--config SETTINGS] [--output FILE] [--issues | --sequence]"; pure 1
