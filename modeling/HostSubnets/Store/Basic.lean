import HostSubnets.Node.Basic
import HostSubnets.Store.Error
import HostSubnets.Text.Numeral

/-!
# Stores of node records

* `Records` : node records by name;
* `Records.select` : the records that a label selector matches, in name order;
* `Node.bump` : a record with the version after its own;
* `Records.replace` : a write that only succeeds on the version that was read
  (`Records.find?_replace`);
* `StoreOps` : reading, listing and conditional writing, on a state of any kind.
-/

namespace HostSubnets

abbrev Records := SortedMap String Node

namespace Node

/-- The number of a version; versions that are no numbers count as zero. -/
def versionNumber (n : Node) : Nat :=
  match n.version with
  | none => 0
  | some text =>
    match Text.readNat (2 ^ 64 - 1) text.toList with
    | .ok number => number
    | .error _ => 0

def bump (n : Node) : Node := { n with version := some (toString (n.versionNumber + 1)) }

theorem key_bump (n : Node) : n.bump.key = n.key := rfl

end Node

namespace Records

/-- Whether a selector matches a node: an exclamation mark and a label match the nodes without that
label, every other selector matches all. -/
def matches? (selector : String) (n : Node) : Bool :=
  match selector.toList with
  | '!' :: label => (n.labelAt? (String.ofList label)).isNone
  | _ => true

def select (selector : String) (records : Records) : List Node :=
  records.values.filter (matches? selector)

def put (n : Node) (records : Records) : Records := records.insert n.key n

/-- Writes a record, if the stored one has the same version. -/
def replace (n : Node) (records : Records) : Except StoreError (Node × Records) :=
  match records.find? n.key with
  | none => .error (.notFound n.key)
  | some current =>
    if current.version = n.version then .ok (n.bump, records.insert n.key n.bump)
    else .error (.conflict n.key)

theorem find?_replace {n written : Node} {records after : Records}
    (h : replace n records = .ok (written, after)) (name : String) :
    after.find? name = if name = n.key then some written else records.find? name := by
  unfold replace at h
  split at h
  · simp at h
  · split at h
    · simp only [Except.ok.injEq, Prod.mk.injEq] at h
      obtain ⟨rfl, rfl⟩ := h
      exact SortedMap.find?_insert records n.key n.bump name
    · simp at h

def modify (name : String) (change : Node → Node) (records : Records) : Records :=
  match records.find? name with
  | none => records
  | some n => records.insert name (change n)

/-- Names whose records differ, with the later record. -/
def changes (before after : Records) : List (String × Option Node) :=
  let names := before.keys ++ after.keys.filter fun name => !before.contains name
  (names.filter fun name => before.find? name ≠ after.find? name).map fun name =>
    (name, after.find? name)

end Records

/-- A store of node records in a state of type `σ`. -/
structure StoreOps (σ : Type) where
  get : String → σ → Except StoreError Node × σ
  list : String → σ → Except StoreError (List Node) × σ
  write : Node → σ → Except StoreError Node × σ

end HostSubnets
