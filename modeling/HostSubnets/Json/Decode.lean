import HostSubnets.Json.Basic
import HostSubnets.SortedMap

/-!
# Parts of JSON values

* `Json.text?`, `Json.texts?`, `Json.members?`, `Json.natural?`, `Json.object?`,
  `Json.items?` : values of one shape;
* `Json.ofMap`, `Json.ofTexts` : such values;
* `Json.member?` : a member by name, and `Json.optional?` one that may be missing or null;
* `Json.occurrences` : how often a name occurs.
-/

namespace HostSubnets.Json

def text? : Json → Option String
  | .string s => some s
  | _ => none

/-- The list of texts that a value is; a single text stands for a list of one. -/
def texts? : Json → Option (List String)
  | .string s => some [s]
  | .array items => items.mapM text?
  | _ => none

/-- The number that a value is, if it is an integer of at most `max` that is not negative. -/
def natural? (max : Nat) : Json → Option Nat
  | .number n => if n.integral ∧ !n.negative ∧ n.mantissa ≤ max then some n.mantissa else none
  | _ => none

/-- The members of an object of which every value can be decoded; of equal names the last counts. -/
def members? {α : Type} (value? : Json → Option α) : Json → Option (SortedMap String α)
  | .object members => do
    let decoded ← members.mapM fun m => (value? m.2).map (m.1, ·)
    some (.ofList decoded)
  | _ => none

def object? : Json → Option (List (String × Json))
  | .object members => some members
  | _ => none

def items? : Json → Option (List Json)
  | .array items => some items
  | _ => none

def ofMap {α : Type} (value : α → Json) (m : SortedMap String α) : Json :=
  .object (m.entries.map fun e => (e.1, value e.2))

def ofTexts (texts : List String) : Json := .array (texts.map .string)

/-- The last member of a name. -/
def member? (name : String) (members : List (String × Json)) : Option Json :=
  members.reverse.lookup name

def occurrences (name : String) (members : List (String × Json)) : Nat :=
  (members.filter (·.1 = name)).length

/-- A member that may be missing or null; none if it is there and cannot be decoded. -/
def optional? {α : Type} (value? : Json → Option α) (name : String)
    (members : List (String × Json)) : Option (Option α) :=
  match member? name members with
  | none => some none
  | some .null => some none
  | some value => (value? value).map some

end HostSubnets.Json
