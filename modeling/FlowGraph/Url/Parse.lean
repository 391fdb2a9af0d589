import FlowGraph.Url.Basic

/-!
Reading addresses. Blanks and controls at both ends do not count, and neither do tabs and line breaks
anywhere. An address with a well-known scheme has a host, whatever number of slashes stand before it,
and backslashes in it are slashes; the files of one's own machine have an empty one.
-/

namespace FlowGraph.Url

/-- The text of an address without what does not count in it. -/
def cleaned (text : String) : List Char :=
  let isEdge := fun c : Char => c.toNat ≤ 32
  (((text.toList.dropWhile isEdge).reverse.dropWhile isEdge).reverse).filter fun c =>
    c ≠ '\t' ∧ c ≠ '\n' ∧ c ≠ '\r'

/-- The scheme, in lower case, and what follows its colon. -/
def splitScheme? (cs : List Char) : Option (String × List Char) :=
  let isSchemeChar := fun c : Char => c.isAlphanum || c == '+' || c == '-' || c == '.'
  match cs.takeWhile isSchemeChar, cs.dropWhile isSchemeChar with
  | c :: scheme, ':' :: rest =>
    if c.isAlpha then some (String.ofList ((c :: scheme).map Char.toLower), rest) else none
  | _, _ => none

/-- A slash; a backslash is one too where the scheme is well known. -/
def isSlash (known : Bool) (c : Char) : Bool :=
  c == '/' || (known && c == '\\')

/-- What ends the part of an address that says where the resource is. -/
def endsAuthority (known : Bool) (c : Char) : Bool :=
  isSlash known c || c == '?' || c == '#'

def isSingleDot (step : String) : Bool :=
  [".", "%2e"].contains step.toLower

def isDoubleDot (step : String) : Bool :=
  ["..", "%2e.", ".%2e", "%2e%2e"].contains step.toLower

/-- A letter and a colon, or what may stand for one: the name of a drive. -/
def isDrive : List Char → Bool
  | [c, d] => c.isAlpha && (d == ':' || d == '|')
  | _ => false

/-- The path one step back. The name of a drive remains. -/
def back (ofFile : Bool) (path : List String) : List String :=
  match ofFile, path with
  | true, [step] => if isDrive step.toList && step.endsWith ":" then path else []
  | _, path => path.dropLast

def goSteps (ofFile : Bool) : List String → List String → List String
  | path, [] => path
  | path, step :: steps =>
    if isDoubleDot step then
      let path := back ofFile path
      goSteps ofFile (if steps.isEmpty then path ++ [""] else path) steps
    else if isSingleDot step then
      goSteps ofFile (if steps.isEmpty then path ++ [""] else path) steps
    else if ofFile ∧ path.isEmpty ∧ isDrive step.toList then
      goSteps ofFile [String.ofList (step.toList.take 1 ++ [':'])] steps
    else goSteps ofFile (path ++ [step]) steps

/-- The steps of a text between slashes. -/
def stepsOf (known : Bool) (cs : List Char) : List String :=
  (partsAt '/' (cs.map fun c => if isSlash known c then '/' else c)).map fun part =>
    String.ofList (escape pathSet part)

/-- The path of an address from its text, whose first slash has been read. Files have no empty steps at
its beginning. -/
def parsePath (known ofFile : Bool) (cs : List Char) : List String :=
  let path := goSteps ofFile [] (stepsOf known cs)
  if ofFile then
    match path.dropWhile (· = "") with
    | [] => [""]
    | path => path
  else path

/-- Adds the path, the query and the fragment. -/
def withRest (u : Url) (readPath : List Char → List String ⊕ String) (cs : List Char) : Url :=
  let path := cs.takeWhile fun c => c ≠ '?' ∧ c ≠ '#'
  let rest := cs.dropWhile fun c => c ≠ '?' ∧ c ≠ '#'
  let query := (if rest.head? = some '?' then some rest.tail else none).map (·.takeWhile (· ≠ '#'))
  let fragment := (rest.dropWhile (· ≠ '#')).tail?
  let set := if isKnown u.scheme then knownQuerySet else querySet
  { u with
    path := readPath path
    query := query.map fun q => String.ofList (escape set q)
    fragment := fragment.map fun f => String.ofList (escape fragmentSet f) }

/-- The name and password of a user, and what follows them up to the host. It is wrong to name a user
and no host. -/
def splitUser? (known : Bool) (cs : List Char) : Option (String × String × List Char) :=
  let area := cs.takeWhile (!endsAuthority known ·)
  let rest := cs.drop area.length
  if !area.contains '@' then some ("", "", cs)
  else
    let host := (area.reverse.takeWhile (· ≠ '@')).reverse
    let before := area.take (area.length - host.length - 1)
    if before.isEmpty ∧ host.isEmpty ∧ !rest.isEmpty then none
    else
      let user := before.takeWhile (· ≠ ':')
      let password := (before.drop user.length).drop 1
      some (String.ofList (escape userSet user), String.ofList (escape userSet password), host ++ rest)

/-- The text of a host, and what follows it. A colon in brackets does not end it. -/
def splitHost (known : Bool) : (bracket : Bool) → List Char → List Char × List Char
  | _, [] => ([], [])
  | bracket, c :: cs =>
    if endsAuthority known c || (c == ':' && !bracket) then ([], c :: cs)
    else
      let (host, rest) := splitHost known (if c = '[' then true else if c = ']' then false else bracket) cs
      (c :: host, rest)

/-- The number of the service after a colon, if it is not the usual one, and what follows it. -/
def splitService? (usual : Option Nat) (cs : List Char) : Option (Option Nat × List Char) :=
  match cs with
  | ':' :: cs => do
    let digits := cs.takeWhile Char.isDigit
    let rest := cs.dropWhile Char.isDigit
    let n ← digitsInRadix? 10 digits
    if 0xFFFF < n ∨ !(rest.head?.all (endsAuthority true)) then none
    else return (if digits.isEmpty ∨ some n = usual then none else some n, rest)
  | cs => some (none, cs)

def parseAuthority? (scheme : String) (cs : List Char) : Option Url := do
  let known := isKnown scheme
  let (user, password, cs) ← splitUser? known cs
  let (hostText, cs) := splitHost known false cs
  let host ← if known then Host.known? hostText else Host.any? hostText
  if !host.isPresent ∧ (user ≠ "" ∨ password ≠ "" ∨ cs.head? = some ':') then none
  else
    let (service, cs) ← splitService? ((knownService? scheme).join) cs
    let readPath := fun path : List Char =>
      match path with
      | [] => if known then .inl [""] else .inl []
      | c :: path' =>
        .inl (parsePath known false (if isSlash known c then path' else path))
    return withRest ⟨scheme, user, password, some host, service, .inl [], none, none⟩ readPath cs

/-- Reads the address of a file. The own machine needs no name. -/
def parseFile? (cs : List Char) : Option Url :=
  let file := fun (host : Host) (cs : List Char) =>
    let readPath := fun path : List Char =>
      .inl (parsePath true true (if path.head?.any (isSlash true) then path.tail else path))
    withRest ⟨"file", "", "", some host, none, .inl [], none, none⟩ readPath cs
  match cs with
  | a :: b :: rest =>
    if isSlash true a ∧ isSlash true b then
      let hostText := rest.takeWhile (!endsAuthority true ·)
      if hostText.isEmpty ∨ isDrive hostText then some (file (.name "") rest)
      else do
        let host ← Host.known? hostText
        let u := file (if host = .name "localhost" then .name "" else host) (rest.drop hostText.length)
        let onDrive := match u.path with
          | .inl (step :: _) => isDrive step.toList
          | _ => false
        return if onDrive then { u with host := some (.name "") } else u
    else some (file (.name "") cs)
  | cs => some (file (.name "") cs)

/-- Reads an address whose scheme is not well known. -/
def parseOther? (scheme : String) (cs : List Char) : Option Url :=
  match cs with
  | '/' :: '/' :: cs => parseAuthority? scheme cs
  | '/' :: cs =>
    some (withRest ⟨scheme, "", "", none, none, .inl [], none, none⟩
      (fun path => .inl (parsePath false false path)) cs)
  | cs =>
    some (withRest ⟨scheme, "", "", none, none, .inr "", none, none⟩
      (fun path => .inr (String.ofList (escape [] path))) cs)

/-- The address that a text stands for. -/
def parse? (text : String) : Option Url := do
  let (scheme, cs) ← splitScheme? (cleaned text)
  if scheme = "file" then parseFile? cs
  else if isKnown scheme then parseAuthority? scheme (cs.dropWhile (isSlash true))
  else parseOther? scheme cs

end FlowGraph.Url
