import TxRecovery.Api.Messages
import TxRecovery.Http
import TxRecovery.Node.Pass

/-!
# The node's interface

One request in, one response out, and the node as the request leaves it. Every operation that fails
answers with its message under a status that tells whose fault it was. Browsers of any origin may
use the interface: each response says so, and requests that ask first are answered for every path.
-/

namespace TxRecovery

open Http (Request Response)

namespace Api

structure Refusal where
  status : Nat
  message : String

def Refusal.toResponse (r : Refusal) : Response :=
  .json r.status (.object [("error", .string r.message)])

def statusOf : ResendError → Nat
  | .enclaveUnavailable => 503
  | .keyNotFound _ => 404
  | .invalidBatchSize => 400
  | .invalidPublicKey _ => 400
  | .payload (.decode _) => 400
  | _ => 500

def refusalOf (e : ResendError) : Refusal := ⟨statusOf e, e.message⟩

/-- Runs an operation and answers with what it came to. -/
def respond {α : Type} (op : NodeOp α) (f : α → Response) (n : Node) : Response × Node :=
  match op.eval n with
  | (.ok a, n) => (f a, n)
  | (.error e, n) => ((refusalOf e).toResponse, n)

/-- The largest body that is read. -/
def bodyLimit : Nat := 2 * 1024 * 1024

/-- Reads the body of a request, or answers why it cannot be read. -/
def readBody {α : Type} (r : Json.Record α) (request : Request) : Except Response α :=
  match (request.header? "content-type").map Http.isJsonType with
  | some true =>
    if bodyLimit < (Utf8.encode request.body).length then
      .error (.text 413 "Failed to buffer the request body: length limit exceeded")
    else
      match Json.parseFirst r.read request.body with
      | .ok a => .ok a
      | .error (.malformed _) => .error (.text 400 "Failed to parse the request body as JSON")
      | .error (.mismatch path cause) =>
        let place := if path.isEmpty then "" else Json.pathText path ++ ": "
        .error (.text 422 ("Failed to deserialize the JSON body into the target type: " ++ place
          ++ cause.message))
  | _ => .error (.text 415 "Expected request with `Content-Type: application/json`")

def health (n : Node) : Response × Node :=
  (.json 200 (.object [("status", .string "ok")]), n)

def status (now : String) : Node → Response × Node :=
  respond (do
    let transactions ← Node.backend.ledgerSize.mapError .db
    let stagingRows ← Node.backend.areaSize.mapError .db
    let stagedRows ← Node.countStaged
    let n ← get
    pure ({ version := n.version, resendMode := n.settings.resendMode, transactions, stagingRows,
            stagedRows, lastPass := n.lastPass, timestamp := now } : NodeStatus))
    fun s => .json 200 s.toJson

def resend (request : Request) (n : Node) : Response × Node :=
  match readBody ResendRequest.record request with
  | .error response => (response, n)
  | .ok r =>
    respond (do
      let total ← Node.resend r
      modify fun n => n.count fun m => { m with rowsExamined := m.rowsExamined + total }
      pure total) (fun total => .json 200 (ResendAnswer.toJson ⟨total⟩)) n

/-- All payloads are read before the first is staged. -/
def push (request : Request) (n : Node) : Response × Node :=
  match readBody PushBody.record request with
  | .error response => (response, n)
  | .ok body =>
    match body.decode with
    | .error f => ((Refusal.mk 400 ("invalid hex payload: " ++ f.message)).toResponse, n)
    | .ok payloads =>
      respond (do
        Node.push payloads
        Node.refreshGauge
        modify fun n => n.count fun m =>
          { m with payloadsStaged := m.payloadsStaged + payloads.length })
        (fun _ => .empty 200) n

def stage : Node → Response × Node :=
  respond Node.stage fun o => .json 200 (.object [("outcome", o.toJson)])

def sync : Node → Response × Node :=
  respond Node.sync fun t => .json 200 (SyncReport.ofTally t).toJson

def cleanup : Node → Response × Node :=
  respond Node.cleanup fun removed => .json 200 (.object [("removed", .number removed)])

/-- Events are listened to over a connection that a request asks to change its protocol. A single
request cannot, so that in the end it is told to. -/
def listen (request : Request) (n : Node) : Response × Node :=
  let hasWord (name word : String) : Bool :=
    match request.header? name with
    | some v => decide ((Text.lower v).splitOn word ≠ [Text.lower v])
    | none => false
  let equals (name value : String) : Bool :=
    match request.header? name with
    | some v => Text.lower v == value
    | none => false
  let response : Response :=
    if request.method ≠ "GET" then .text 405 "Request method must be `GET`"
    else if !hasWord "connection" "upgrade" then
      .text 400 "Connection header did not include 'upgrade'"
    else if !equals "upgrade" "websocket" then
      .text 400 "`Upgrade` header did not include 'websocket'"
    else if !equals "sec-websocket-version" "13" then
      .text 400 "`Sec-WebSocket-Version` header did not include '13'"
    else if (request.header? "sec-websocket-key").isNone then
      .text 400 "`Sec-WebSocket-Key` header missing"
    else
      .text 426 "WebSocket request couldn't be upgraded since no upgrade state was present"
  (response, n)

/-- A path with its method and handler. -/
structure Route where
  path : String
  method : String
  handle : Request → Node → Response × Node

def routes (now : String) : List Route := [
  ⟨"/health", "GET", fun _ => health⟩,
  ⟨"/status", "GET", fun _ => status now⟩,
  ⟨"/resendBatch", "POST", resend⟩,
  ⟨"/pushBatch", "POST", push⟩,
  ⟨"/staging/perform", "POST", fun _ => stage⟩,
  ⟨"/sync/perform", "POST", fun _ => sync⟩,
  ⟨"/staging", "DELETE", fun _ => cleanup⟩,
  ⟨"/ws", "GET", listen⟩]

/-- The methods that a route is there for. -/
def Route.allowed (r : Route) : List (String × String) :=
  [("allow", if r.method = "GET" then "GET,HEAD" else r.method)]

def route? (now : String) (request : Request) : Option Route :=
  (routes now).find? fun r => r.path == request.path

/-- A request for the head alone is answered as if for the whole, without the body. -/
def dispatch (now : String) (request : Request) (n : Node) : Response × Node :=
  match route? now request with
  | none => ((Response.empty 404).sized, n)
  | some r =>
    if request.method = r.method then
      let (response, n) := r.handle request n
      (response.sized, n)
    else if request.method = "HEAD" ∧ r.method = "GET" then
      let (response, n) := r.handle request n
      (response.sized.withoutBody, n)
    else (((Response.empty 405).withHeaders r.allowed).sized, n)

def originHeaders : List (String × String) := [
  ("vary", "origin, access-control-request-method, access-control-request-headers"),
  ("access-control-allow-origin", "*")]

def permissionHeaders : List (String × String) := [
  ("access-control-allow-methods", "GET,POST,DELETE,OPTIONS"),
  ("access-control-allow-headers", "*")]

def handle (now : String) (request : Request) (n : Node) : Response × Node :=
  if request.method = "OPTIONS" then
    let allowed := ((route? now request).map Route.allowed).getD []
    (((Response.empty 200).withHeaders (originHeaders ++ permissionHeaders ++ allowed)).sized, n)
  else
    let (response, n) := dispatch now request n
    (response.withHeaders originHeaders, n)

end Api

end TxRecovery
