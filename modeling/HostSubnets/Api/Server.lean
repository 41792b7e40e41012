import HostSubnets.Api.Client

/-!
# An API server in memory

Node records behind the calls of an API server, with planned failures and a record of every change
for those who watch.

* `Api.ServerFault` : what is to happen at a call;
* `Api.Change` : a record written or removed;
* `Api.Server.answer` : the response to a call, and the server after it.
-/

namespace HostSubnets.Api

inductive ServerFault where
  | pass
  | refuse (code : Nat)
  /-- Another write comes first. -/
  | touch
  /-- The record is removed first. -/
  | delete
deriving DecidableEq, Repr

inductive Change where
  | written (n : Node)
  | removed (n : Node)
deriving DecidableEq

def Change.node : Change → Node
  | .written n => n
  | .removed n => n

structure Server where
  records : Records
  getFaults : List ServerFault
  listFaults : List ServerFault
  writeFaults : List ServerFault
  /-- Changes that nobody was told of yet, latest first. -/
  changes : List Change
  gets : Nat
  lists : Nat
  writeAttempts : Nat
  writes : Nat

namespace Server

def ofRecords (records : Records) : Server := ⟨records, [], [], [], [], 0, 0, 0, 0⟩

def refusal (code : Nat) (reason : String) : Response :=
  let status : Json := .object [("apiVersion", .string "v1"), ("kind", .string "Status"),
    ("metadata", .object []), ("status", .string "Failure"), ("message", .string reason),
    ("reason", .string reason), ("code", .ofNat code)]
  ⟨code, status.toString⟩

def success (j : Json) : Response := ⟨200, j.toString⟩

def put (n : Node) (s : Server) : Server :=
  { s with records := Records.put n s.records, changes := .written n :: s.changes }

def remove (name : String) (s : Server) : Server :=
  match s.records.find? name with
  | none => s
  | some n => { s with records := s.records.erase name, changes := .removed n :: s.changes }

/-- What happens before a write. -/
def disturb (name : String) (fault : ServerFault) (s : Server) : Server :=
  match fault, s.records.find? name with
  | .touch, some n => s.put n.bump
  | .delete, _ => s.remove name
  | _, _ => s

def getNode (name : String) (s : Server) : Response :=
  match s.records.find? name with
  | some n => success n.toJson
  | none => refusal 404 "NotFound"

def replace (n : Node) (s : Server) : Response × Server :=
  match Records.replace n s.records with
  | .ok (written, _) => (success written.toJson, { s.put written with writes := s.writes + 1 })
  | .error e =>
    if e.isNotFound then (refusal 404 "NotFound", s) else (refusal 409 "Conflict", s)

def answerGet (name : String) (s : Server) : Response × Server :=
  let fault := s.getFaults.headD .pass
  let s := { s with getFaults := s.getFaults.tail, gets := s.gets + 1 }
  match fault with
  | .refuse code => (refusal code "Injected", s)
  | _ => (s.getNode name, s)

def answerList (selector : String) (s : Server) : Response × Server :=
  let fault := s.listFaults.headD .pass
  let s := { s with listFaults := s.listFaults.tail, lists := s.lists + 1 }
  match fault with
  | .refuse code => (refusal code "Injected", s)
  | _ => (success (Node.listToJson (s.records.select selector)), s)

def answerReplace (n : Node) (s : Server) : Response × Server :=
  let fault := s.writeFaults.headD .pass
  let s := { s with writeFaults := s.writeFaults.tail, writeAttempts := s.writeAttempts + 1 }
  match fault with
  | .refuse code => (refusal code "Injected", s)
  | fault => (s.disturb n.key fault).replace n

/-- The response to a call. What is read is decided by its address alone. -/
def answer (call : Call) (s : Server) : Response × Server :=
  match call, call.uri?.bind (Resource.ofUri? ·.toList) with
  | .replace n, some (.status _) => s.answerReplace n
  | .replace _, _ => (refusal 404 "NotFound", s)
  | _, some (.node name) => s.answerGet name
  | _, some (.nodes selector) => s.answerList selector
  | _, _ => (refusal 404 "NotFound", s)

/-- The changes that nobody was told of yet, in order, and the server without them. -/
def takeChanges (s : Server) : List Change × Server := (s.changes.reverse, { s with changes := [] })

def ops : StoreOps Server := storeOps answer

end Server

end HostSubnets.Api
