import Formula.CommandLine.Run

/-! # The program

Reads the file that the arguments name, if they name one, and leaves everything
else to `Formula.CommandLine.run`.
-/
namespace Formula

/-- The content of a file on disk. -/
def readFile (path : String) : IO (Except FileError ByteArray) := do
  try
    return .ok (← IO.FS.readBinFile path)
  catch
    | .noFileOrDirectory .. => return .error .notFound
    | .inappropriateType .. => return .error .isDirectory
    | e => return .error (.unreadable (toString e))

end Formula

/-- Print what the program leaves behind, and give its status. -/
def main (argv : List String) : IO UInt32 := do
  let content ← match Formula.CommandLine.fileToRead? argv with
    | some path => Formula.readFile path
    | none => pure (.error .notFound)
  match Formula.CommandLine.run (fun _ => content) argv with
  | .ok outcome =>
    IO.print outcome.stdout
    IO.eprint outcome.stderr
    return outcome.status.toUInt32
  | .error e =>
    IO.eprintln (Formula.CommandLine.program ++ ": " ++ e.reason)
    return 1
