import FlowGraph.CommandLine.Arguments

/-!
The commands of the program, how they are read from the command line, and the help about them.
-/

namespace FlowGraph.CommandLine

inductive Command where
  /-- Run the flow in a file. -/
  | run (file : String) (input start : Option String)
  /-- Check flows in files and directories. -/
  | validate (paths : List String)
  /-- Bring the flow in a file to the current versions. -/
  | migrate (file : String) (output : Option String)
  /-- List the node types. -/
  | nodes (json : Bool)
  /-- Write an example. -/
  | init (output : String)
deriving DecidableEq, Repr

structure Invocation where
  verbose : Bool := false
  config : Option String := none
  command : Command
deriving DecidableEq, Repr

structure PositionalSpec where
  name : String
  many : Bool := false
deriving DecidableEq, Repr

structure CommandSpec where
  name : String
  about : String
  options : List OptionSpec := []
  /-- The options that must be given. -/
  needed : List String := []
  positional : Option PositionalSpec := none
  /-- What the help says after an option. -/
  notes : List (String × String) := []
  make : Found → Command

def globalOptions : List OptionSpec :=
  [⟨"verbose", some 'v', .none, "Show debug logs"⟩,
    ⟨"config", some 'c', .path, "Runtime config JSON file"⟩]

/-- Where the example is written unless told otherwise. -/
def defaultOutput : String := "flow.json"

def commands : List CommandSpec :=
  [{ name := "run"
     about := "Execute a flow file"
     options := [⟨"file", some 'f', .path, "Path to flow JSON file"⟩,
       ⟨"input", some 'i', .text, "Run inputs as a JSON object"⟩,
       ⟨"start", none, .text, "Start node id, overriding the config"⟩]
     needed := ["file"]
     make := fun f => .run ((f.value? "file").getD "") (f.value? "input") (f.value? "start") },
   { name := "validate"
     about := "Validate flow files or directories of flows"
     positional := some ⟨"PATHS", true⟩
     make := fun f => .validate f.positionals },
   { name := "migrate"
     about := "Migrate node data to the current schema versions"
     options := [⟨"output", some 'o', .path, "Write here instead of stdout"⟩]
     positional := some ⟨"FILE", false⟩
     make := fun f => .migrate (f.positionals.headD "") (f.value? "output") },
   { name := "nodes"
     about := "List available node types"
     options := [⟨"json", none, .none, "Print the full catalog as JSON"⟩]
     make := fun f => .nodes (f.has "json") },
   { name := "init"
     about := "Create an example flow"
     options := [⟨"output", some 'o', .path, "Output file path"⟩]
     notes := [("output", s!"[default: {defaultOutput}]")]
     make := fun f => .init ((f.value? "output").getD defaultOutput) }]

def pad (width : Nat) (s : String) : String :=
  s ++ String.ofList (List.replicate (width - s.length) ' ')

def columns (entries : List (String × String)) : List String :=
  let width := (entries.map (·.1.length)).foldl max 0
  entries.map fun e => s!"  {pad width e.1}  {e.2}"

def OptionSpec.usage (o : OptionSpec) : String :=
  let letter := match o.short with
    | some c => s!"-{c}, "
    | none => "    "
  let operand := if o.operand = .none then "" else s!" <{o.long.toUpper}>"
  s!"{letter}--{o.long}{operand}"

/-- How a positional argument is written. -/
def PositionalSpec.usage (p : PositionalSpec) : String :=
  if p.many then s!"<{p.name}>..." else s!"<{p.name}>"

def optionLines (notes : List (String × String)) (options : List OptionSpec) : List String :=
  columns (options.map fun o =>
    (o.usage, match notes.lookup o.long with
      | some note => s!"{o.about} {note}"
      | none => o.about))

def helpSummary : String := "Print this message or the help of the given subcommand(s)"

def helpHelp : List String :=
  [helpSummary, "", "Usage: flowchart help [COMMAND]...", "", "Arguments:",
    "  [COMMAND]...  Print help for the subcommand(s)"]

def programHelp : List String :=
  ["Flowchart CLI", "", "Usage: flowchart [OPTIONS] <COMMAND>", "", "Commands:"] ++
    columns (commands.map (fun c => (c.name, c.about)) ++ [("help", helpSummary)]) ++
    ["", "Options:"] ++ optionLines [] (globalOptions ++ [helpOption])

/-- What options of the same rank are sorted by. -/
def OptionSpec.sortKey (o : OptionSpec) : String :=
  match o.short with
  | some c => String.ofList [c, '0']
  | none => o.long

/-- The options of two lists, those of one rank beside each other. -/
def byRank : List OptionSpec → List OptionSpec → List OptionSpec
  | a :: as, b :: bs =>
    (if b.sortKey < a.sortKey then [b, a] else [a, b]) ++ byRank as bs
  | [], bs => bs
  | as, [] => as

def CommandSpec.help (c : CommandSpec) : List String :=
  let needed := (c.options.filter (·.long ∈ c.needed)).map fun o => s!" --{o.long} <{o.long.toUpper}>"
  let positional := (c.positional.map fun p => s!" {p.usage}").getD ""
  [c.about, "", s!"Usage: flowchart {c.name} [OPTIONS]{String.join needed}{positional}", ""] ++
    (match c.positional with
      | some p => ["Arguments:"] ++ columns [(p.usage, "")] ++ [""]
      | none => []) ++
    ["Options:"] ++ optionLines c.notes (byRank c.options globalOptions ++ [helpOption])

inductive Reading where
  | invocation (invocation : Invocation)
  | help (lines : List String)
  | refused (error : UsageError)

/-- How many positional arguments a command may have, if so many are given at all. -/
def CommandSpec.most (c : CommandSpec) (given : Nat) : Nat :=
  match c.positional with
  | none => 0
  | some p => if p.many then given else 1

def CommandSpec.check (c : CommandSpec) (f : Found) : Except UsageError Unit :=
  match c.needed.find? fun long => !f.has long with
  | some long => .error (.missing s!"--{long}")
  | none =>
    match c.positional, f.positionals with
    | some p, [] => .error (.missing p.usage)
    | _, _ => .ok ()

/-- Reads the arguments of a command; `outer` is what stands before its name, which is judged last. -/
def CommandSpec.read (c : CommandSpec) (outer : Found) (arguments : List String) :
    Except UsageError Invocation := do
  let (f, _) ← readArguments (c.options ++ globalOptions ++ [helpOption]) false
    (c.most arguments.length) arguments {}
  let f ← f.settle
  c.check f
  let outer ← outer.settle
  return {
    verbose := f.has "verbose" || outer.has "verbose"
    config := f.value? "config" <|> outer.value? "config"
    command := c.make f }

/-- The help that was asked for by name. -/
def helpAbout : List String → Reading
  | [] => .help programHelp
  | name :: names =>
    match (if name = "help" then some helpHelp else (commands.find? (·.name = name)).map (·.help)) with
    | none => .refused (.unknownCommand name)
    | some lines =>
      match names with
      | [] => .help lines
      | inner :: _ => .refused (.unknownCommand inner)

def readCommand (arguments : List String) : Reading :=
  match readArguments (globalOptions ++ [helpOption]) true 1 arguments {} with
  | .error .help => .help programHelp
  | .error e => .refused e
  | .ok (outer, rest) =>
    match outer.positionals with
    | [] => .refused (.missing "<COMMAND>")
    | "help" :: _ => helpAbout rest
    | name :: _ =>
      match commands.find? (·.name = name) with
      | none => .refused (.unknownCommand name)
      | some c =>
        match c.read { outer with positionals := [] } rest with
        | .ok invocation => .invocation invocation
        | .error .help => .help c.help
        | .error e => .refused e

end FlowGraph.CommandLine
