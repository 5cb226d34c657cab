import TxRecovery.Json.Value
import TxRecovery.Text.Case
import TxRecovery.Text.Utf8

/-!
# HTTP messages

Requests and responses as far as the node's interface looks at them. Header names are compared
without regard to case.
-/

namespace TxRecovery

namespace Http

/-- The value of the first header of this name. -/
def header? (headers : List (String × String)) (name : String) : Option String :=
  (headers.find? fun h => Text.lower h.1 == Text.lower name).map Prod.snd

/-- A character that a scheme may have before its colon. -/
def isSchemeChar (c : Char) : Bool := c.isAlphanum || c = '+' || c = '-' || c = '.'

/-- The path that a request's target names: what stands before the query and the fragment, and in an
absolute target behind scheme and authority, where an empty path is the top. A target that is nothing
but an authority has no path. -/
def pathOf (target : List Char) : List Char :=
  let untilQuery (cs : List Char) : List Char := cs.takeWhile fun c => c ≠ '?' && c ≠ '#'
  match target, target.dropWhile isSchemeChar with
  | ['*'], _ => ['*']
  | '/' :: _, _ => untilQuery target
  | _, ':' :: '/' :: '/' :: rest =>
    match untilQuery (rest.dropWhile fun c => c ≠ '/' && c ≠ '?' && c ≠ '#') with
    | [] => ['/']
    | path => path
  | _, _ => []

structure Request where
  method : String
  /-- With the query, if there is one. -/
  target : String
  headers : List (String × String)
  body : String

namespace Request

def path (r : Request) : String := String.ofList (pathOf r.target.toList)

def header? (r : Request) (name : String) : Option String := Http.header? r.headers name

end Request

structure Response where
  status : Nat
  headers : List (String × String)
  body : String

namespace Response

def empty (status : Nat) : Response := ⟨status, [], ""⟩

def text (status : Nat) (body : String) : Response :=
  ⟨status, [("content-type", "text/plain; charset=utf-8")], body⟩

def json (status : Nat) (v : Json.Value) : Response :=
  ⟨status, [("content-type", "application/json")], v.render⟩

def withHeaders (r : Response) (headers : List (String × String)) : Response :=
  { r with headers := r.headers ++ headers }

def header? (r : Response) (name : String) : Option String := Http.header? r.headers name

/-- States the length of the body. -/
def sized (r : Response) : Response :=
  r.withHeaders [("content-length", toString (Utf8.encode r.body).length)]

/-- The head of a response stays as it is without the body. -/
def withoutBody (r : Response) : Response := { r with body := "" }

end Response

/-- The characters of a token. -/
def isTokenChar (c : Char) : Bool :=
  c.isAlphanum || "!#$%&'*+-.^_`|~".toList.contains c

/-- A character that may stand between quotes. -/
def isQuotable (c : Char) : Bool := decide (31 < c.toNat) && decide (c.toNat < 127)

mutual

/-- Whether these are the parameters of a media type, from after a semicolon on. -/
def areParameters : (fuel : Nat) → List Char → Bool
  | _, [] => true
  | 0, _ => false
  | fuel + 1, ' ' :: cs => areParameters fuel cs
  | fuel + 1, cs =>
    let name := cs.takeWhile isTokenChar
    match cs.dropWhile isTokenChar with
    | '=' :: rest => !name.isEmpty && isParameterValue fuel rest
    | _ => false

def isParameterValue : (fuel : Nat) → List Char → Bool
  | 0, _ => false
  | fuel + 1, '"' :: c :: cs =>
    -- A value in quotes is not empty, so a quote that comes first belongs to it.
    match cs.dropWhile fun c => isQuotable c && c ≠ '"' with
    | '"' :: rest =>
      match rest.dropWhile (· = ' ') with
      | [] => isQuotable c
      | ';' :: rest => isQuotable c && areParameters fuel rest
      | _ => false
    | _ => false
  | fuel + 1, cs =>
    match cs.dropWhile isTokenChar with
    | [] => true
    | ';' :: rest => !(cs.takeWhile isTokenChar).isEmpty && areParameters fuel rest
    | _ => false

end

/-- Whether a media type is JSON by its name or by the suffix after the last plus. -/
def isJsonType (s : String) : Bool :=
  let cs := s.toList
  let kind := cs.takeWhile fun c => isTokenChar c
  match cs.dropWhile fun c => isTokenChar c with
  | '/' :: rest =>
    let subtype := rest.takeWhile isTokenChar
    let suffix := (subtype.reverse.takeWhile (· ≠ '+')).reverse
    let stem := subtype.take (subtype.length - suffix.length - 1)
    let hasSuffix := subtype.contains '+' && !stem.isEmpty
    let name := if hasSuffix then stem else subtype
    let rightName (cs : List Char) : Bool := Text.lower (String.ofList cs) == "json"
    let rightParameters : Bool :=
      match rest.dropWhile isTokenChar with
      | [] => true
      | ';' :: ps => !subtype.isEmpty && areParameters (ps.length + 1) ps
      | _ => false
    Text.lower (String.ofList kind) == "application" && rightParameters &&
      (rightName name || (hasSuffix && rightName suffix))
  | _ => false

end Http

end TxRecovery
