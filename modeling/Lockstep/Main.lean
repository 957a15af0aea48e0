import Lockstep.Command.Execution

/-!
# The program

Reads the files that the command line names, carries the command out, and
prints what came of it.
-/

namespace Lockstep

/-- The text of a file, or why there is none. -/
def readText (path : String) : IO (Except ReadError String) := do
  try
    return .ok (← IO.FS.readFile path)
  catch e =>
    return .error <| match e with
      | .noFileOrDirectory .. => .missing
      | .inappropriateType _ 21 _ => .directory
      | .inappropriateType .. => .notDirectory
      | e => .other (toString e)

/-- The name that the program was started under. -/
def programName : IO String := do
  return (← IO.appPath).fileName.getD "lockstep"

/-- The home of the user. -/
def homePath : IO String := do
  match ← IO.getEnv "HOME" with
  | some path => return path
  | none => return (← IO.getEnv "USERPROFILE").getD "."

/-- The options that the program knows, one to a line. -/
def helpText : String :=
  "Dependency resolution with platform alignment\n\nOptions of the command resolve:\n" ++
    String.join (Flag.inner.map fun f => "  --" ++ f.long ++ "\n")

/-- Answers a line that asks for nothing that can be done. -/
def explain (e : UsageError) : IO UInt32 := do
  match e with
  | .help =>
    IO.print helpText
    return 0
  | .version =>
    IO.println ((← programName) ++ " 0.1.0")
    return 0
  | e =>
    IO.eprintln ("error: " ++ e.message)
    return 2

/-- A path leads to a file, rather than to a directory or a device. -/
def leadsToFile (path : String) : IO Bool := do
  try
    return (← ((← IO.currentDir) / path).metadata).type matches .file
  catch _ =>
    return false

/-- The part of the files of the machine that is at the given paths. -/
def filesAt (paths : List String) : IO Files := do
  let entries ← paths.mapM fun path => do return (path, ← leadsToFile path, ← readText path)
  let entry (path : String) := (entries.find? (·.1 == path)).map Prod.snd
  return {
    text := fun path => ((entry path).map Prod.snd).getD (.error .missing)
    isFile := fun path => (entry path).any Prod.fst }

/-- Carries out an invocation on the files of the machine. -/
def carryOut (i : Invocation) : IO UInt32 := do
  let settings := (← homePath) ++ "/" ++ Settings.path (← programName)
  let execution := i.executeWith settings (← filesAt (settings :: i.request :: i.catalogs))
  for s in execution.status do
    IO.eprintln s.line
  match execution.result with
  | .ok text =>
    IO.print text
    return 0
  | .error e =>
    IO.eprintln ("error: " ++ e.message)
    return 1

end Lockstep

/-- Reads the command line and carries it out. -/
def main (args : List String) : IO UInt32 := do
  match Lockstep.Invocation.ofLine args with
  | .error e => Lockstep.explain e
  | .ok i => Lockstep.carryOut i
