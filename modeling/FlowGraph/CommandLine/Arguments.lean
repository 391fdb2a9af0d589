/-!
Options and arguments on a command line.

An option has a long name after two hyphens and may have a letter after one. Its value follows as the
next argument, or after an equals sign, or right after the letter. Letters of options without values
may share one hyphen. Everything after two bare hyphens is a positional argument. No option may be
given twice, and a value does not begin with a hyphen, unless it is one.

A value that is an argument of its own is not judged before the next option comes or the arguments
end.
-/

namespace FlowGraph.CommandLine

inductive Operand where
  | none
  | text
  /-- A path, which may not be empty. -/
  | path
deriving DecidableEq, Repr

structure OptionSpec where
  long : String
  short : Option Char := none
  operand : Operand := .none
  about : String
deriving DecidableEq, Repr

def helpOption : OptionSpec := ⟨"help", some 'h', .none, "Print help"⟩

/-- The options that were given, each with its value or the empty text, and the other arguments. -/
structure Found where
  options : List (String × String) := []
  positionals : List String := []
  /-- The option that was met last, and its value if that has come, before the value is judged. -/
  pending : Option (OptionSpec × Option String) := none
deriving DecidableEq, Repr

inductive UsageError where
  | unexpected (argument : String)
  | repeated (option : String)
  | missingValue (option : String)
  | missing (argument : String)
  | unknownCommand (name : String)
  /-- Help was asked for, which ends the reading as well. -/
  | help
deriving DecidableEq, Repr

def UsageError.message : UsageError → String
  | unexpected argument => s!"unexpected argument '{argument}' found"
  | repeated option => s!"the argument '--{option}' cannot be used multiple times"
  | missingValue option => s!"a value is required for '--{option}' but none was supplied"
  | missing argument => s!"the following required arguments were not provided: {argument}"
  | unknownCommand name => s!"unrecognized subcommand '{name}'"
  | help => "help"

namespace Found

def value? (f : Found) (long : String) : Option String :=
  f.options.lookup long

def has (f : Found) (long : String) : Bool :=
  (f.value? long).isSome

/-- Judges the option whose value came as an argument of its own, and the positional arguments. An
option must be a new one and have a value that suits it. -/
def settle (f : Found) : Except UsageError Found :=
  if "" ∈ f.positionals then .error (.missingValue "")
  else
    match f.pending with
    | none => .ok f
    | some (o, none) => .error (.missingValue o.long)
    | some (o, some value) =>
      if f.has o.long then .error (.repeated o.long)
      else if o.operand = .path ∧ value = "" then .error (.missingValue o.long)
      else .ok { f with options := f.options ++ [(o.long, value)], pending := none }

/-- Adds an option whose value is part of the same argument, if it takes one. -/
def add (f : Found) (o : OptionSpec) (value : String) : Except UsageError Found := do
  let f ← f.settle
  if o.long = helpOption.long then .error .help
  else settle { f with pending := some (o, some value) }

/-- Adds an option whose value is the next argument. -/
def expect (f : Found) (o : OptionSpec) : Except UsageError Found := do
  let f ← f.settle
  return { f with pending := some (o, none) }

/-- Adds a positional argument, of which there may be no more than `most`. -/
def addPositional (most : Nat) (f : Found) (argument : String) : Except UsageError Found :=
  if f.positionals.length < most then .ok { f with positionals := f.positionals ++ [argument] }
  else .error (.unexpected argument)

end Found

/-- Whether an argument stands for itself, as opposed to options. -/
def isPlain (argument : String) : Bool :=
  !argument.startsWith "-" || argument == "-"

/-- Reads the letters after one hyphen. -/
def readLetters (specs : List OptionSpec) (argument : String) :
    List Char → Found → Except UsageError Found
  | [], f => .ok f
  | c :: cs, f =>
    match specs.find? (·.short = some c) with
    | none => .error (.unexpected argument)
    | some o =>
      if o.operand = .none then do
        let f ← f.add o ""
        readLetters specs argument cs f
      else
        match cs with
        | [] => f.expect o
        | '=' :: value => f.add o (String.ofList value)
        | value => f.add o (String.ofList value)

def readLong (specs : List OptionSpec) (body : List Char) (f : Found) : Except UsageError Found :=
  let name := String.ofList (body.takeWhile (· ≠ '='))
  let value := (body.dropWhile (· ≠ '=')).tail?
  match specs.find? (·.long = name) with
  | none => .error (.unexpected s!"--{name}")
  | some o =>
    match o.operand, value with
    | .none, none => f.add o ""
    | .none, some _ => .error (.unexpected s!"--{String.ofList body}")
    | _, none => f.expect o
    | _, some value => f.add o (String.ofList value)

/-- Reads arguments, `most` of them positional ones. Where `stops`, the first positional argument ends
the reading, and the arguments after it are returned. -/
def readArguments (specs : List OptionSpec) (stops : Bool) (most : Nat) :
    List String → Found → Except UsageError (Found × List String)
  | [], f => .ok (f, [])
  | argument :: rest, f =>
    match f.pending, argument.toList with
    | some (o, none), _ =>
      if isPlain argument then
        readArguments specs stops most rest { f with pending := some (o, some argument) }
      else .error (.missingValue o.long)
    | _, ['-', '-'] => do
      if stops then .error (.unexpected argument)
      else return (← rest.foldlM (Found.addPositional most) f, [])
    | _, letters =>
      if isPlain argument then do
        let f ← f.addPositional most argument
        if stops then return (f, rest) else readArguments specs stops most rest f
      else
        match letters with
        | '-' :: '-' :: body => do
          let f ← readLong specs body f
          readArguments specs stops most rest f
        | letters => do
          let f ← readLetters specs argument letters.tail f
          readArguments specs stops most rest f

end FlowGraph.CommandLine
