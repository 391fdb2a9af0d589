import FlowGraph.Node.Basic

/-!
What an `httpRequest` node needs of the client that sends its requests. The client is given from outside:
what it answers may differ from call to call, also where the requests are the same.
-/

namespace FlowGraph.Http

/-- The methods that the data of a request may name. -/
def methods : List String := ["GET", "POST", "PUT", "PATCH", "DELETE"]

inductive Body where
  | empty
  | text (s : String)
  /-- The JSON text of a value. -/
  | json (value : Value)

structure Request where
  method : String
  url : String
  headers : List (String × String)
  body : Body

/-- What comes back, and was read to its end. -/
structure Response where
  status : UInt16
  /-- The headers; one that is no text has no value here. -/
  headers : List (String × Option String)
  body : String

inductive Reply where
  /-- There is no answer. -/
  | failed (reason : String)
  /-- There is one, but it cannot be read. -/
  | unreadable (reason : String)
  | answered (response : Response)

/-- A client that sends requests. -/
structure Client where
  /-- Accepts the name of a method, or says why it is none. -/
  method : String → Except String Unit
  method_eq_ok : ∀ name ∈ methods, method name = .ok ()
  /-- The pauses, in milliseconds, until it is known what becomes of a request, and this. -/
  send : Call → Request → List Nat × Reply

end FlowGraph.Http
