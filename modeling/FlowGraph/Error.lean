import FlowGraph.Json.ReadError
import FlowGraph.Plan.Error
import FlowGraph.Registry
import FlowGraph.Run.Trace

/-!
All that can go wrong between a stored flow and the end of its run.
-/

namespace FlowGraph

/-- Why a file cannot be read or written. -/
inductive FileError where
  | notFound
  | notDirectory
  | isDirectory
  | nameTooLong
  /-- The path holds the character that ends the names of the machine. -/
  | nulInPath
  /-- The file does not hold text. -/
  | notText
  | other (reason : String) (code : Nat)
deriving DecidableEq, Repr

def FileError.message : FileError → String
  | notFound => "No such file or directory (os error 2)"
  | notDirectory => "Not a directory (os error 20)"
  | isDirectory => "Is a directory (os error 21)"
  | nameTooLong => "File name too long (os error 36)"
  | nulInPath => "file name contained an unexpected NUL byte"
  | notText => "stream did not contain valid UTF-8"
  | other reason code => s!"{reason} (os error {code})"

/-- Why a flow cannot be loaded, planned, run or stored. -/
inductive FlowError where
  | schema (error : SchemaError)
  | graph (error : GraphError)
  | execution (failure : Failure)
  | registry (error : RegistryError)
  | file (error : FileError)
  | serialization (error : ReadError)
deriving DecidableEq

namespace FlowError

def ofResolve : ResolveError → FlowError
  | .schema e => schema e
  | .graph e => graph e

/-- The text of what lies behind the error. -/
def cause : FlowError → String
  | schema e => e.message
  | graph e => e.message
  | execution f => f.message
  | registry e => e.message
  | file e => e.message
  | serialization e => e.message

def area : FlowError → String
  | schema _ => "Schema"
  | graph _ => "Graph"
  | execution _ => "Execution"
  | registry _ => "Registry"
  | file _ => "IO"
  | serialization _ => "Serialization"

def message (e : FlowError) : String :=
  s!"{e.area} error: {e.cause}"

end FlowError

end FlowGraph
