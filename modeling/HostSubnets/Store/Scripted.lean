import HostSubnets.Store.Basic

/-!
# A store with planned failures

Every call takes the next entry of a list of faults before it does its work.

* `Fault` : what is to happen at a call;
* `ScriptedStore` : records, faults and a count of the calls;
* `ScriptedStore.ops` : its operations.
-/

namespace HostSubnets

inductive Fault where
  | pass
  | conflict
  | notFound
  | encode
  | server
  /-- Another write comes first. -/
  | touch
  /-- The record is removed first. -/
  | delete
  /-- The list holds all records. -/
  | unfiltered
deriving DecidableEq, Repr

def Fault.error? (name : String) : Fault → Option StoreError
  | .conflict => some (.conflict name)
  | .notFound => some (.notFound name)
  | .encode => some (.encode name "injected")
  | .server => some (.api (.status 500 "Injected"))
  | _ => none

structure ScriptedStore where
  records : Records
  getFaults : List Fault
  listFaults : List Fault
  writeFaults : List Fault
  gets : Nat
  lists : Nat
  writeAttempts : Nat
  writes : Nat

namespace ScriptedStore

def empty : ScriptedStore := ⟨.empty, [], [], [], 0, 0, 0, 0⟩

def resetCounts (s : ScriptedStore) : ScriptedStore :=
  { s with gets := 0, lists := 0, writeAttempts := 0, writes := 0 }

def get (name : String) (s : ScriptedStore) : Except StoreError Node × ScriptedStore :=
  let fault := s.getFaults.headD .pass
  let s := { s with getFaults := s.getFaults.tail, gets := s.gets + 1 }
  match fault.error? name with
  | some e => (.error e, s)
  | none =>
    match s.records.find? name with
    | some n => (.ok n, s)
    | none => (.error (.notFound name), s)

def list (selector : String) (s : ScriptedStore) : Except StoreError (List Node) × ScriptedStore :=
  let fault := s.listFaults.headD .pass
  let s := { s with listFaults := s.listFaults.tail, lists := s.lists + 1 }
  match fault.error? selector with
  | some e => (.error e, s)
  | none =>
    (.ok (if fault = .unfiltered then s.records.values else s.records.select selector), s)

/-- The records after what happens before a write. -/
def disturb (name : String) : Fault → Records → Records
  | .touch, records => Records.modify name Node.bump records
  | .delete, records => records.erase name
  | _, records => records

def write (n : Node) (s : ScriptedStore) : Except StoreError Node × ScriptedStore :=
  let fault := s.writeFaults.headD .pass
  let s := { s with
    writeFaults := s.writeFaults.tail, writeAttempts := s.writeAttempts + 1 }
  match fault.error? n.key with
  | some e => (.error e, s)
  | none =>
    let s := { s with records := disturb n.key fault s.records }
    match Records.replace n s.records with
    | .error e => (.error e, s)
    | .ok (written, records) => (.ok written, { s with records, writes := s.writes + 1 })

def ops : StoreOps ScriptedStore := ⟨get, list, write⟩

end ScriptedStore

end HostSubnets
