import PacketFlow.Command.Run

/-!
The program: carries out its command line on the files and the standard input of its process.
-/
namespace PacketFlow.Command

/-- What comes of an attempt: nothing, if it fails. -/
def attempt {α : Type} (action : IO α) : IO (Option α) :=
  try
    return some (← action)
  catch _ => return none

/-- Whether there is anything at a path: whether opening it fails for a reason other than that. -/
def isPresent (path : String) : IO Bool :=
  try
    let _ ← IO.FS.readBinFile path
    return true
  catch
    | .noFileOrDirectory .. => return false
    | _ => return true

/-- The host of a process. -/
def processHost : Host IO where
  read? path := return (← attempt (IO.FS.readBinFile path)).bind String.fromUTF8?
  readInput? := do
    let input ← IO.getStdin
    return (← attempt input.readBinToEnd).bind String.fromUTF8?
  has := isPresent
  write path text := return (← attempt (IO.FS.writeFile path text)).isSome

end PacketFlow.Command

open PacketFlow.Command in
/-- Carries out the command line, prints what it gives or reports why it failed, and ends with the
code of the outcome. -/
def main (words : List String) : IO UInt32 := do
  let outcome ← run processHost words
  IO.print outcome.output
  match outcome with
  | .done _ => pure ()
  | .failed failure => IO.eprintln failure.report
  | .stopped stop => IO.eprint stop.report
  return outcome.exitCode.toUInt32
