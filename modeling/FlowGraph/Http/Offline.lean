import FlowGraph.Http.Client
import FlowGraph.Url.Parse

/-!
A client without a network. A request is checked up to the point where a connection would be opened, and
ends there.
-/

namespace FlowGraph.Http

/-- A character of a method or of the name of a header. -/
def isTokenChar (c : Char) : Bool :=
  c.isAlphanum || ['!', '#', '$', '%', '&', '\x27', '*', '+', '-', '.', '^', '_', '\x60', '|', '~'].contains c

def isToken (s : String) : Bool :=
  !s.isEmpty && s.toList.all isTokenChar

def isHeaderValue (s : String) : Bool :=
  s.toList.all fun c => (32 ≤ c.toNat && c.toNat ≠ 127) || c = '\t'

/-- Characters of the name of a host that a request cannot have. -/
def unsendable : List Char := ['"', '\x60', '\x7b', '\x7d']

/-- How long the address of a request may be, in bytes. -/
def longestAddress : Nat := 65534

/-- Whether a request can be sent to an address. -/
def isSendable (u : Url) : Bool :=
  (u.scheme = "http" || u.scheme = "https") && u.text.utf8ByteSize ≤ longestAddress &&
    !(u.authority.toList.any unsendable.contains)

/-- Why a request is not sent. That an address has no host is found before a header is looked at, and
that its scheme is the wrong one after that. -/
def requestFailure (address : String) (headers : List (String × String)) : String :=
  match Url.parse? address with
  | none => "builder error"
  | some u =>
    let u := u.withoutUser
    if !u.hasHost then s!"builder error for url ({u.text})"
    else if headers.any fun h => !isToken h.1 || !isHeaderValue h.2 then "builder error"
    else if isSendable u then s!"error sending request for url ({u.text})"
    else s!"builder error for url ({u.text})"

theorem isToken_of_mem_methods {name : String} (h : name ∈ methods) : isToken name = true := by
  have hall : ∀ name ∈ methods, isToken name = true := by decide
  exact hall name h

/-- The client that reaches no address. -/
def Client.offline : Client where
  method name := if isToken name then .ok () else .error "invalid HTTP method"
  method_eq_ok _ h := if_pos (isToken_of_mem_methods h)
  send _ request := ([], .failed (requestFailure request.url request.headers))

end FlowGraph.Http
