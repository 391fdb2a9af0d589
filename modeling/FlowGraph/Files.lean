import FlowGraph.Config
import FlowGraph.Error
import FlowGraph.Flow

/-!
Flows and settings in files. The functions work over any way to get at files; `FileTree` is one that
keeps them in memory.
-/

namespace FlowGraph

/-- Access to files, by their paths. -/
structure FileAccess (m : Type → Type) where
  read : String → m (Except FileError String)
  write : String → String → m (Except FileError Unit)
  /-- The names in a directory. -/
  list : String → m (Except FileError (List String))
  isDirectory : String → m Bool

namespace FileAccess

variable {m : Type → Type} [Monad m] (files : FileAccess m)

def loadFlow (path : String) : m (Except FlowError Flow) := do
  match ← files.read path with
  | .error e => return .error (.file e)
  | .ok text => return (Flow.parse text).mapError .serialization

def saveFlow (path : String) (flow : Flow) : m (Except FlowError Unit) := do
  return (← files.write path flow.pretty).mapError .file

def loadConfig (path : String) : m (Except FlowError Config) := do
  match ← files.read path with
  | .error e => return .error (.file e)
  | .ok text => return (Config.parse text).mapError .serialization

/-- Reads flows one after the other, up to the first one that cannot be read. -/
def loadFlows : List String → m (Except FlowError (List (String × Flow)))
  | [] => return .ok []
  | path :: paths => do
    match ← files.loadFlow path with
    | .error e => return .error e
    | .ok flow =>
      match ← loadFlows paths with
      | .error e => return .error e
      | .ok rest => return .ok ((path, flow) :: rest)

end FileAccess

/-- Whether a file name ends in `.json` with something before it. -/
def isFlowFile (name : String) : Bool :=
  name.endsWith ".json" && name ≠ ".json"

/-- The path of a name in a directory. -/
def joinPath (directory name : String) : String :=
  if directory.endsWith "/" then directory ++ name else s!"{directory}/{name}"

/-- Reads the flow files of a directory in the order of their names. -/
def FileAccess.loadDirectory {m : Type → Type} [Monad m] (files : FileAccess m) (path : String) :
    m (Except FlowError (List (String × Flow))) := do
  match ← files.list path with
  | .error e => return .error (.file e)
  | .ok names =>
    let flowNames := Dict.distinct (names.filter isFlowFile)
    files.loadFlows (flowNames.map (joinPath path))

/-- Files in memory: the texts of the files by the steps of their paths. The directories are those in
which files lie, and the one at the top. -/
structure FileTree where
  files : List (List String × String) := []
deriving DecidableEq

namespace FileTree

/-- Whether a step of a path stays where it is. -/
def staysPut (step : String) : Bool :=
  step = "" || step = "."

/-- The text of the file with these steps. -/
def text? (t : FileTree) (steps : List String) : Option String :=
  t.files.lookup steps

/-- Whether the steps lead to a directory. -/
def hasDirectory (t : FileTree) (steps : List String) : Bool :=
  steps.isEmpty || t.files.any fun f => f.1 ≠ steps && steps.isPrefixOf f.1

/-- A name may have so many bytes. -/
def longestName : Nat := 255

/-- Where a path leads. A path that ends in a slash asks for a directory. -/
inductive Place where
  | directory (steps : List String)
  /-- A directory above the top, of which nothing is known. -/
  | above
  | file (steps : List String) (text : String) (slash : Bool)
  /-- Nothing, in a directory that there is. -/
  | free (steps : List String) (slash : Bool)

/-- Where the steps of a path lead from a directory, or from above the top. -/
def walk (t : FileTree) : Option (List String) → List String → Except FileError Place
  | none, [] => .ok .above
  | some d, [] => .ok (.directory d)
  | d, step :: rest =>
    if staysPut step then t.walk d rest
    else
      match d with
      | none => if step = ".." then t.walk none rest else .error .notFound
      | some d =>
        if longestName < step.utf8ByteSize then .error .nameTooLong
        else if step = ".." then t.walk (if d.isEmpty then none else some d.dropLast) rest
        else if t.hasDirectory (d ++ [step]) then t.walk (some (d ++ [step])) rest
        else
          match t.text? (d ++ [step]) with
          | some text =>
            if rest.all (· = "") then .ok (.file (d ++ [step]) text !rest.isEmpty)
            else .error .notDirectory
          | none =>
            if rest.all (· = "") then .ok (.free (d ++ [step]) !rest.isEmpty)
            else .error .notFound

def place (t : FileTree) (path : String) : Except FileError Place :=
  if path.toList.contains '\x00' then .error .nulInPath
  else t.walk (if path.startsWith "/" then none else some []) (path.splitOn "/")

def read (t : FileTree) (path : String) : Except FileError String := do
  match ← t.place path with
  | .directory _ | .above => .error .isDirectory
  | .file _ text slash => if slash then .error .notDirectory else .ok text
  | .free _ _ => .error .notFound

def write (t : FileTree) (path text : String) : Except FileError FileTree := do
  match ← t.place path with
  | .directory _ | .above | .file _ _ true | .free _ true => .error .isDirectory
  | .file s _ false => .ok ⟨t.files.map fun f => if f.1 = s then (s, text) else f⟩
  | .free s false => .ok ⟨t.files ++ [(s, text)]⟩

def list (t : FileTree) (path : String) : Except FileError (List String) := do
  match ← t.place path with
  | .directory s => .ok (t.files.filterMap fun f => if s.isPrefixOf f.1 then f.1[s.length]? else none)
  | .above => .ok []
  | .file _ _ _ => .error .notDirectory
  | .free _ _ => .error .notFound

/-- Whether a path leads to a directory. -/
def isDirectory (t : FileTree) (path : String) : Bool :=
  match t.place path with
  | .ok (.directory _) | .ok .above => true
  | _ => false

def access : FileAccess (StateM FileTree) where
  read path := do return (← get).read path
  write path text := do
    match (← get).write path text with
    | .error e => return .error e
    | .ok t => set t; return .ok ()
  list path := do return (← get).list path
  isDirectory path := do return (← get).isDirectory path

def steps (path : String) : List String :=
  (path.splitOn "/").filter (!staysPut ·)

/-- The tree with the given files; of two texts for one file the later one counts. -/
def ofList (entries : List (String × String)) : FileTree :=
  entries.foldl (fun t e => ⟨t.files.filter (·.1 ≠ steps e.1) ++ [(steps e.1, e.2)]⟩) {}

/-- A path as it reads from the top: without what stays put at its beginning. -/
def relative (path : String) : String :=
  "/".intercalate ((path.splitOn "/").dropWhile staysPut)

end FileTree

end FlowGraph
