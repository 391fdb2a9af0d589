import FlowGraph.Url.Host

/-!
Addresses of resources, in the form to which they are brought when they are read, and their text.
-/

namespace FlowGraph

/-- An address. All its texts are in percent encoding. -/
structure Url where
  scheme : String
  user : String := ""
  password : String := ""
  /-- The host; there is none if the address does not say where to look for it. -/
  host : Option Url.Host := none
  /-- The number of the service on the host, unless it is the usual one of the scheme. -/
  service : Option Nat := none
  /-- The steps of the path, or a text that is not divided into steps. -/
  path : List String ⊕ String
  query : Option String := none
  fragment : Option String := none

namespace Url

/-- The usual number of the service of a scheme that is well known, if it has one. -/
def knownService? : String → Option (Option Nat)
  | "http" | "ws" => some (some 80)
  | "https" | "wss" => some (some 443)
  | "ftp" => some (some 21)
  | "file" => some none
  | _ => none

def isKnown (scheme : String) : Bool :=
  (knownService? scheme).isSome

/-- Whether the address says which host has the resource. -/
def hasHost (u : Url) : Bool :=
  u.host.any Host.isPresent

/-- The name and password of a user, as they stand before the host. -/
def credentials (u : Url) : String :=
  if u.user = "" ∧ u.password = "" then ""
  else if u.password = "" then u.user ++ "@"
  else s!"{u.user}:{u.password}@"

/-- The host and what belongs to it. -/
def authority (u : Url) : String :=
  match u.host with
  | none => ""
  | some host =>
    "//" ++ u.credentials ++ host.text ++ ((u.service.map fun n => s!":{n}").getD "")

/-- The text of the path. Where no host stands before it, it must not look as if one did. -/
def pathText (u : Url) : String :=
  match u.path with
  | .inr text => text
  | .inl steps =>
    let text := String.join (steps.map ("/" ++ ·))
    if u.host.isNone ∧ text.startsWith "//" then "/." ++ text else text

def text (u : Url) : String :=
  s!"{u.scheme}:{u.authority}{u.pathText}" ++ ((u.query.map ("?" ++ ·)).getD "") ++
    ((u.fragment.map ("#" ++ ·)).getD "")

/-- The address without the name and password of a user, which go elsewhere in a request; a name that
is no text stays. -/
def withoutUser (u : Url) : Url :=
  let isText := fun s : String => (unescapeText? s.toList).isSome
  if isText u.user ∧ (u.user ≠ "" ∨ (u.password ≠ "" ∧ isText u.password)) then
    { u with user := "", password := "" }
  else u

end Url

end FlowGraph
