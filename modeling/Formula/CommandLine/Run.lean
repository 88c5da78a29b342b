import Formula.CommandLine.Arguments
import Formula.Reading

/-! # The command line

The program reads one formula, from its operands or from a file, and prints it in
one of its forms, or a report if it is no formula.  The exit status tells the two
cases apart; a third status is for arguments and files that cannot be used.
-/
namespace Formula
namespace CommandLine

/-- What the program leaves behind. -/
structure Outcome where
  status : Nat
  stdout : String
  stderr : String
deriving DecidableEq

/-- The name of the program in its reports. -/
def program : String := "mathparser"

/-- The outcome for arguments that cannot be used. -/
def Outcome.usage (e : UsageError) : Outcome :=
  ⟨2, "", program ++ ": error: " ++ e.message ++ "\n"⟩

/-- The outcome where help was asked for. -/
def Outcome.help : Outcome :=
  ⟨0, "usage: " ++ program ++ " [-h] [--file PATH] [--full-form] " ++
    "[--no-implicit-multiplication] [-v] [expression ...]\n", ""⟩

/-- The outcome where there is nothing to read. -/
def Outcome.nothing : Outcome :=
  ⟨0, "Nothing to do.\n", ""⟩

/-- The outcome for a file that cannot be opened. -/
def Outcome.unreadable (path : String) (e : FileError) : Outcome :=
  ⟨2, "", program ++ ": cannot read " ++ path ++ ": " ++ e.reason ++ "\n"⟩

/-- The log of a reading. -/
def log (r : Reading) : String :=
  let scanned := match r.tokenCount with
    | some n =>
      program ++ ".lexer.lexer: " ++ r.name ++ ": " ++ toString n ++ " tokens\n"
    | none => ""
  let parsed := match r.diagnostic?, r.tokenCount with
    | some d, _ =>
      program ++ ".driver: parse of " ++ r.name ++ " failed: " ++ d.header ++ "\n"
    | none, some n =>
      program ++ ".parser.parser: parsed " ++ toString n ++ " tokens, " ++
        toString r.memoSize ++ " memo entries\n"
    | none, none => ""
  scanned ++ parsed

/-- The report of a reading that failed, with the advice if it is asked for. -/
def report (verbose : Bool) (d : Diagnostic) : String :=
  if verbose then d.renderHelp else d.render

/-- The outcome of a reading. -/
def Outcome.ofReading (args : Arguments) (r : Reading) : Outcome :=
  let stderr := if args.verbose then log r else ""
  match r.outcome with
  | .ok e => ⟨0, (if args.fullForm then e.full else e.pretty) ++ "\n", stderr⟩
  | .error _ =>
    ⟨1, ((r.diagnostic?.map (report args.verbose)).getD "") ++ "\n", stderr⟩

/-- The dialect that the arguments choose. -/
def Arguments.config (args : Arguments) : Config :=
  { implicitMultiplication := !args.noImplicitMultiplication }

/-- The file that the arguments name.  An empty path names none. -/
def Arguments.path? (args : Arguments) : Option String :=
  args.file.filter (· ≠ "")

/-- Do what the arguments ask for.  A file that is not UTF-8 is an error of its
own, which leaves no outcome. -/
def execute (lookup : File.Lookup) (args : Arguments) : Except FileError Outcome :=
  if args.help then .ok .help
  else
    match args.path?, args.expression with
    | some _, _ :: _ => .ok (.usage .fileWithExpression)
    | some path, [] =>
      match Reading.ofFile lookup path args.config with
      | .ok r => .ok (.ofReading args r)
      | .error .undecodable => .error .undecodable
      | .error e => .ok (.unreadable path e)
    | none, [] => .ok .nothing
    | none, words =>
      .ok (.ofReading args (.ofText unnamed (String.intercalate " " words) args.config))

/-- Run the program with the given arguments. -/
def run (lookup : File.Lookup) (argv : List String) : Except FileError Outcome :=
  match Arguments.parse argv with
  | .ok args => execute lookup args
  | .error e => .ok (.usage e)

/-- The file that the program will read. -/
def fileToRead? (argv : List String) : Option String :=
  match Arguments.parse argv with
  | .ok args => if args.help then none else args.path?
  | .error _ => none

end CommandLine
end Formula
