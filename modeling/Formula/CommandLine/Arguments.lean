import Formula.Text.Debug
import Formula.Text.Digit

/-! # Command line arguments

The arguments are operands, which make up the expression, and options, which
start with a dash.  A long option may be shortened as long as it stays clear
which is meant, short options may be written together, and a value may follow an
equals sign.

Options may stand anywhere, but the operands must stand together: those behind a
later option are not recognised.  An argument of two dashes ends the options.
-/
namespace Formula
namespace CommandLine

/-! ## Options -/

/-- The options. -/
inductive Switch
  | help
  | file
  | fullForm
  | noImplicitMultiplication
  | verbose
deriving DecidableEq

/-- The name of an option in reports. -/
def Switch.name : Switch → String
  | help => "-h/--help"
  | file => "--file"
  | fullForm => "--full-form"
  | noImplicitMultiplication => "--no-implicit-multiplication"
  | verbose => "-v/--verbose"

/-- The ways to write the options. -/
def spellings : List (String × Switch) :=
  [("-h", .help), ("--help", .help), ("--file", .file), ("--full-form", .fullForm),
    ("--no-implicit-multiplication", .noImplicitMultiplication), ("-v", .verbose),
    ("--verbose", .verbose)]

/-- Why the arguments cannot be used. -/
inductive UsageError
  /-- An argument is short for each of several options. -/
  | ambiguous (arg : String) (options : List String)
  /-- An option without a value is given one. -/
  | ignoredValue (switch : Switch) (value : String)
  /-- An option has no value. -/
  | missingValue (switch : Switch)
  | unrecognized (args : List String)
  | fileWithExpression
deriving DecidableEq

/-- What a report says of arguments that cannot be used. -/
def UsageError.message : UsageError → String
  | ambiguous arg options =>
    "ambiguous option: " ++ arg ++ " could match " ++ String.intercalate ", " options
  | ignoredValue switch value =>
    "argument " ++ switch.name ++ ": ignored explicit argument " ++ Text.debug value
  | missingValue switch => "argument " ++ switch.name ++ ": expected one argument"
  | unrecognized args => "unrecognized arguments: " ++ String.intercalate " " args
  | fileWithExpression => "--file cannot be combined with expression arguments"

/-! ## Single arguments -/

/-- What is written in the same argument behind an option. -/
inductive Attached
  | nothing
  /-- More short options, directly behind a short one or behind its equals
  sign. -/
  | cluster (letters : List Char)
  /-- A value behind an equals sign. -/
  | value (text : String)

/-- The letters of the short options behind an option. -/
def Attached.letters : Attached → List Char
  | cluster letters => letters
  | nothing | value _ => []

/-- What an argument is. -/
inductive Word
  | operand
  | separator
  | option (switch : Switch) (attached : Attached)
  | unknown

/-- An argument up to its first equals sign, and what follows that sign. -/
def splitValue (arg : List Char) : List Char × Option String :=
  (arg.takeWhile (· ≠ '='),
    match arg.dropWhile (· ≠ '=') with
    | [] => none
    | _ :: value => some (String.ofList value))

/-- Digits with perhaps a point among them or in front.  A line feed may follow. -/
def isUnsigned (text : List Char) : Bool :=
  let (whole, rest) := (text.takeWhile Text.isDecimalDigit, text.dropWhile Text.isDecimalDigit)
  match rest with
  | '.' :: fraction =>
    let (digits, rest) :=
      (fraction.takeWhile Text.isDecimalDigit, fraction.dropWhile Text.isDecimalDigit)
    !digits.isEmpty && (rest.isEmpty || rest == ['\n'])
  | rest => !whole.isEmpty && (rest.isEmpty || rest == ['\n'])

/-- What an argument is that starts with a dash and names no option: an operand
if it is a number or has a space in it. -/
def dashed (behind : List Char) : Word :=
  if isUnsigned behind || behind.contains ' ' then .operand else .unknown

/-- What an argument with two dashes in front is.  The name of the option may be
shortened as long as only one option starts with it. -/
def classifyLong (arg : String) : Except UsageError Word :=
  let (name, value) := splitValue arg.toList
  let attached := (value.map Attached.value).getD .nothing
  match spellings.lookup (String.ofList name) with
  | some switch => .ok (.option switch attached)
  | none =>
    match spellings.filter fun (spelling, _) => name.isPrefixOf spelling.toList with
    | [] => .ok (dashed (arg.toList.drop 1))
    | [(_, switch)] => .ok (.option switch attached)
    | several => .error (.ambiguous arg (several.map Prod.fst))

/-- What stands behind a short option in its argument. -/
def Attached.ofLetters : List Char → Attached
  | [] => .nothing
  | ['='] => .value ""
  | '=' :: letters | letters => .cluster letters

/-- What an argument with one dash in front is, by the letter that follows. -/
def classifyShort (letter : Char) (behind : List Char) : Word :=
  match spellings.lookup (String.ofList ['-', letter]) with
  | some switch => .option switch (.ofLetters behind)
  | none => dashed (letter :: behind)

/-- What a single argument is. -/
def classify (arg : String) : Except UsageError Word :=
  match arg.toList with
  | '-' :: '-' :: _ => classifyLong arg
  | '-' :: letter :: behind => .ok (classifyShort letter behind)
  | _ => .ok .operand

/-- What each argument is.  Behind the separator all are operands. -/
def classifyAll : List String → Except UsageError (List (String × Word))
  | [] => .ok []
  | arg :: args =>
    if arg = "--" then .ok ((arg, .separator) :: args.map fun arg => (arg, .operand))
    else do
      let word ← classify arg
      return (arg, word) :: (← classifyAll args)

/-- The options that stand together in one argument, none of which has a value.
Behind a letter that is no option the rest of the argument would be a value. -/
def together (switch : Switch) : List Char → Except UsageError (List Switch)
  | [] => .ok [switch]
  | letter :: letters =>
    match spellings.lookup (String.ofList ['-', letter]) with
    | some next => do return switch :: (← together next letters)
    | none => .error (.ignoredValue switch (String.ofList (letter :: letters)))

/-! ## All arguments -/

/-- What the arguments ask for. -/
structure Arguments where
  expression : List String := []
  file : Option String := none
  help : Bool := false
  fullForm : Bool := false
  noImplicitMultiplication : Bool := false
  verbose : Bool := false

/-- Arguments with one more option that has no value. -/
def Arguments.set (args : Arguments) : Switch → Arguments
  | .help => { args with help := true }
  | .fullForm => { args with fullForm := true }
  | .noImplicitMultiplication => { args with noImplicitMultiplication := true }
  | .verbose => { args with verbose := true }
  | .file => args

/-- The operands: none so far, the ones at hand, or all that there may be. -/
inductive Operands
  | awaited
  | collected (words : List String)
  | closed (words : List String)

namespace Operands

/-- The operands themselves. -/
def words : Operands → List String
  | awaited => []
  | collected words | closed words => words

/-- The operands in front of an option. -/
def close : Operands → Operands
  | collected words => closed words
  | operands => operands

end Operands

/-- How far the arguments have been used. -/
structure Progress where
  arguments : Arguments := {}
  operands : Operands := .awaited
  unrecognized : List String := []

/-- Use one more operand. -/
def Progress.addOperand (p : Progress) (word : String) : Progress :=
  match p.operands with
  | .awaited => { p with operands := .collected [word] }
  | .collected words => { p with operands := .collected (words ++ [word]) }
  | .closed _ => { p with unrecognized := p.unrecognized ++ [word] }

/-- Use the options of one argument, none of which has a value. -/
def Progress.addOptions (p : Progress) (switches : List Switch) : Progress :=
  { p with
    operands := p.operands.close
    arguments := switches.foldl Arguments.set p.arguments }

/-- Use the option that names a file, instead of any file named before. -/
def Progress.setFile (p : Progress) (path : Option String) : Progress :=
  { p with
    operands := p.operands.close
    arguments := { p.arguments with file := path } }

/-- Use an argument that is not recognised. -/
def Progress.addUnknown (p : Progress) (arg : String) : Progress :=
  { p with
    operands := p.operands.close
    unrecognized := p.unrecognized ++ [arg] }

/-- The path behind an equals sign.  Two dashes are a separator there, too, and
no path. -/
def attachedPath? (text : String) : Option String :=
  if text = "--" then none else some text

/-- Use all arguments.  A request for help ends that at once. -/
def collect (p : Progress) : List (String × Word) → Except UsageError Progress
  | [] => .ok p
  | (arg, .operand) :: rest | (arg, .separator) :: rest => collect (p.addOperand arg) rest
  | (arg, .unknown) :: rest => collect (p.addUnknown arg) rest
  | (_, .option .file .nothing) :: (path, .operand) :: rest => collect (p.setFile (some path)) rest
  | (_, .option .file (.value text)) :: rest => collect (p.setFile (attachedPath? text)) rest
  | (_, .option .file _) :: _ => .error (.missingValue .file)
  | (_, .option switch (.value text)) :: _ => .error (.ignoredValue switch text)
  | (_, .option switch attached) :: rest => do
    let p := p.addOptions (← together switch attached.letters)
    if p.arguments.help then return p else collect p rest

/-- What the arguments ask for.  The separator itself is no operand. -/
def Arguments.parse (argv : List String) : Except UsageError Arguments := do
  let p ← collect {} (← classifyAll argv)
  let args := { p.arguments with expression := p.operands.words.erase "--" }
  if args.help then return args
  else if p.unrecognized.isEmpty then return args
  else .error (.unrecognized p.unrecognized)

end CommandLine
end Formula
