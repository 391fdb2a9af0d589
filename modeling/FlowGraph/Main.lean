import FlowGraph.CommandLine.Perform

/-!
The program: it carries out its command line over the files of the machine.
-/

namespace FlowGraph

/-- The error that the machine reports. -/
def fileError : IO.Error → FileError
  | .noFileOrDirectory _ _ _ => .notFound
  | .inappropriateType _ 21 _ => .isDirectory
  | .inappropriateType _ _ _ => .notDirectory
  | .userError _ => .notText
  | e => .other e.toString 5

def attempt {α : Type} (action : IO α) : IO (Except FileError α) := do
  try
    return .ok (← action)
  catch e =>
    return .error (fileError e)

def machineFiles : FileAccess IO where
  read path := attempt (IO.FS.readFile path)
  write path text := attempt (IO.FS.writeFile path text)
  list path := attempt do
    let directory := (← IO.currentDir) / path
    return (← directory.readDir).toList.map (·.fileName)
  isDirectory path := do
    let directory := (← IO.currentDir) / path
    directory.isDir

/-- A random id in the usual five groups of hexadecimal digits. -/
def randomId : IO String := do
  let digits ← (List.range 32).mapM fun i => do
    let n ← IO.rand 0 15
    return if i = 12 then '4' else (Text.hexDigits (if i = 16 then 8 + n % 4 else n)).headD '0'
  let part (start stop : Nat) := String.ofList ((digits.take stop).drop start)
  return "-".intercalate [part 0 8, part 8 12, part 12 16, part 16 20, part 20 32]

end FlowGraph

def main (arguments : List String) : IO UInt32 := do
  let response ← FlowGraph.CommandLine.respond FlowGraph.machineFiles (← FlowGraph.randomId) arguments
  for line in response.output do
    IO.println line
  for line in response.errors do
    IO.eprintln line
  return UInt32.ofNat response.code
