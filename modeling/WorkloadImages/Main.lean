import WorkloadImages.Command.Run

/-!
# The program

Reads the source of a command, runs it, and writes what it comes to.
-/

namespace WorkloadImages

/-- The cause for which the system cannot read a file. A directory is opened and cannot be read;
a path through what is no directory cannot be opened, and the error names it. -/
def inputErrorOf : IO.Error → InputError
  | .noFileOrDirectory .. => .notFound
  | .inappropriateType none _ _ => .isDirectory
  | .inappropriateType (some _) _ _ => .notADirectory
  | other => .other (toString other)

/-- What is read from a source. -/
def readSource (source : Source) : IO (Except InputError String) := do
  try
    let bytes ← match source with
      | .stdin => (← IO.getStdin).readBinToEnd
      | .file path => IO.FS.readBinFile path
    match String.fromUTF8? bytes with
    | some text => return .ok text
    | none => return .error .notUnicode
  catch cause => return .error (inputErrorOf cause)

/-- Writes what a run comes to, and gives its exit code. -/
def report (outcome : Outcome) : IO UInt32 := do
  IO.print outcome.output
  IO.eprint (Report.lines outcome.warnings)
  if let some failure := outcome.failure then IO.eprintln failure.message
  return UInt32.ofNat outcome.exitCode

end WorkloadImages

open WorkloadImages in
/-- Runs the command that the arguments ask for. -/
def main (arguments : List String) : IO UInt32 := do
  match Command.ofArguments arguments with
  | .error _ => report (.failed .usage [])
  | .ok command =>
    let content ← match command.source? with
      | some source => readSource source
      | none => pure (.ok "")
    report (command.run content)
