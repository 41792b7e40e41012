import HostSubnets.Store.Basic

/-!
# A store in memory

Node records with versions, and two switches that make writes fail.

* `MemoryStore` : the records, the switches and a count of the writes;
* `MemoryStore.write?` : a write, none if the record has the last version of all;
* `MemoryStore.newNode` : a record of the first version.
-/

namespace HostSubnets

structure MemoryStore where
  records : Records
  /-- So many further writes fail with a conflict. -/
  conflicts : Nat
  /-- Writes find no record. -/
  failing : Bool
  writes : Nat

namespace MemoryStore

def empty : MemoryStore := ⟨.empty, 0, false, 0⟩

def newNode (name : String) (annotations labels : TextMap) : Node :=
  { Node.named name with
    version := some "1", annotations := some annotations, labels := some labels }

def put (n : Node) (s : MemoryStore) : MemoryStore := { s with records := Records.put n s.records }

def remove (name : String) (s : MemoryStore) : MemoryStore :=
  { s with records := s.records.erase name }

def get (name : String) (s : MemoryStore) : Except StoreError Node :=
  match s.records.find? name with
  | some n => .ok n
  | none => .error (.notFound name)

def list (selector : String) (s : MemoryStore) : List Node := s.records.select selector

def lastVersion : Nat := 2 ^ 64 - 1

/-- A conditional write, after the switches. -/
def write? (n : Node) (s : MemoryStore) : Option (Except StoreError Node × MemoryStore) :=
  if s.failing then some (.error (.notFound n.key), s)
  else if s.conflicts ≠ 0 then
    some (.error (.conflict n.key), { s with conflicts := s.conflicts - 1 })
  else
    match Records.replace n s.records with
    | .error e => some (.error e, s)
    | .ok (written, records) =>
      if n.versionNumber = lastVersion then none
      else some (.ok written, { s with records, writes := s.writes + 1 })

end MemoryStore

end HostSubnets
