import HostSubnets.Api.Resource
import HostSubnets.Node.Json
import HostSubnets.Store.Basic

/-!
# Calls to the API server

* `Api.Call` : what may be asked of the server, with the address, method and body of the request;
* `Api.Response` : a status code and a text;
* `Api.readNode`, `Api.readNodes` : what a response stands for. A status code from 400 to 599 makes
  it an error, which the text may describe;
* `Api.storeOps` : a store of node records behind anything that answers calls.
-/

namespace HostSubnets.Api

inductive Call where
  | node (name : String)
  | nodes (selector : String)
  | replace (n : Node)
deriving DecidableEq

namespace Call

def resource? (name ending : String) : Option String :=
  if name = "" then none
  else (Text.checkUri (nodesPath ++ "/" ++ name ++ ending).toList).map String.ofList

def uri? : Call → Option String
  | .node name => resource? name ""
  | .nodes selector =>
    some (nodesPath ++ "?&labelSelector=" ++ String.ofList (Text.formEncode selector.toList))
  | .replace n => resource? n.key "/status?"

def method : Call → String
  | .replace _ => "PUT"
  | _ => "GET"

def body? : Call → Option Json
  | .replace n => some n.toJson
  | _ => none

end Call

structure Response where
  code : Nat
  text : String
deriving DecidableEq, Repr

/-! ## Reading responses -/

/-- The members that describe an error, in the order in which they may also be listed. -/
def statusMembers : List (String × Json.Schema) :=
  [("status", .text), ("message", .text), ("reason", .text), ("code", .unsigned 16)]

/-- The error that members describe. Only a message and a reason may be missing, and no member may
be repeated. -/
def ofStatusMembers? (members : List (String × Json)) : Option ApiError := do
  let _ ← Json.member? "status" members
  let code ← (← Json.member? "code" members).natural? (2 ^ 16 - 1)
  let reason := ((Json.member? "reason" members).bind Json.text?).getD ""
  if statusMembers.any fun m => 1 < Json.occurrences m.1 members then none
  else some (.status code reason)

def readStatus? (text : String) : Option ApiError :=
  match Json.readAs? (.record statusMembers none) text.toList with
  | some described => described.object?.bind ofStatusMembers?
  | none => do
    let values ← (Json.readAs? (.tuple (statusMembers.map (·.2))) text.toList).bind Json.items?
    ofStatusMembers? ((statusMembers.map (·.1)).zip values)

/-- What a response stands for, if it is no error. -/
def Response.read {α : Type} (read? : List Char → Option α) (r : Response) : Except ApiError α :=
  if 400 ≤ r.code ∧ r.code < 600 then
    .error ((readStatus? r.text).getD (.status r.code "Failed to parse error data"))
  else
    match read? r.text.toList with
    | some value => .ok value
    | none => .error .undecodable

def readNode (r : Response) : Except ApiError Node := r.read Node.read?

def readNodes (r : Response) : Except ApiError (List Node) := r.read Node.readList?

/-! ## Calls -/

def request {σ α : Type} (answer : Call → σ → Response × σ)
    (read : Response → Except ApiError α) (call : Call) (s : σ) : Except ApiError α × σ :=
  match call.uri? with
  | none => (.error .unbuildable, s)
  | some _ =>
    let (response, s) := answer call s
    (read response, s)

/-- The store behind a server. -/
def storeOps {σ : Type} (answer : Call → σ → Response × σ) : StoreOps σ where
  get name s :=
    let (result, s) := request answer readNode (.node name) s
    (result.mapError (.ofApi name), s)
  list selector s :=
    let (result, s) := request answer readNodes (.nodes selector) s
    (result.mapError .api, s)
  write node s :=
    let (result, s) := request answer readNode (.replace node) s
    (result.mapError (.ofApi node.key), s)

end HostSubnets.Api
