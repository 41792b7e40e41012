import HostSubnets.Json.Decode
import HostSubnets.Node.Basic
import HostSubnets.Node.Schema

/-!
# Node records as JSON

* `Node.toJson` : a record as the API server keeps it;
* `Node.read?` : the record of the text of such an object (`Node.schema`). What is not needed is
  passed over, but it must have its shape;
* `Node.readList?` : the records of the text of a list (`Node.listSchema`).
-/

namespace HostSubnets.Node

def deletionTime : String := "1970-01-01T00:00:00Z"

def optionalMember {α : Type} (name : String) (value : α → Json) (o : Option α) :
    List (String × Json) :=
  match o with
  | some v => [(name, value v)]
  | none => []

def toJson (n : Node) : Json :=
  let deletion := if n.terminating then some deletionTime else none
  .object [("apiVersion", .string "v1"), ("kind", .string "Node"), ("metadata", .object (
    optionalMember "annotations" (Json.ofMap Json.string) n.annotations ++
    optionalMember "deletionTimestamp" Json.string deletion ++
    optionalMember "generateName" Json.string n.generateName ++
    optionalMember "labels" (Json.ofMap Json.string) n.labels ++
    optionalMember "name" Json.string n.name ++
    optionalMember "resourceVersion" Json.string n.version))]

/-- The record of a node's metadata. -/
def ofMetadata? (members : List (String × Json)) : Option Node := do
  let name ← Json.optional? Json.text? "name" members
  let generateName ← Json.optional? Json.text? "generateName" members
  let version ← Json.optional? Json.text? "resourceVersion" members
  let annotations ← Json.optional? (Json.members? Json.text?) "annotations" members
  let labels ← Json.optional? (Json.members? Json.text?) "labels" members
  let deletion ← Json.optional? Json.text? "deletionTimestamp" members
  some ⟨name, generateName, version, annotations, labels, deletion.isSome⟩

def ofJson? (j : Json) : Option Node := do
  let metadata ← Json.optional? Json.object? "metadata" (← j.object?)
  ofMetadata? (metadata.getD [])

/-- The records of a list object. It says what it lists, and neither that nor its metadata twice. -/
def listOfJson? (j : Json) : Option (List Node) := do
  let members ← j.object?
  if 1 < Json.occurrences "metadata" members ∨ 1 < Json.occurrences "items" members then none
  else
    match ← Json.member? "items" members with
    | .array items => items.mapM ofJson?
    | _ => some []

def read? (s : List Char) : Option Node := (Json.readAs? schema s).bind ofJson?

def readList? (s : List Char) : Option (List Node) := (Json.readAs? listSchema s).bind listOfJson?

/-- A list of records as an object. -/
def listToJson (nodes : List Node) : Json :=
  .object [("apiVersion", .string "v1"), ("kind", .string "NodeList"),
    ("metadata", .object [("resourceVersion", .string "1")]),
    ("items", .array (nodes.map toJson))]

end HostSubnets.Node
