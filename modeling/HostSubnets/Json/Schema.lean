import HostSubnets.Json.Reader
import HostSubnets.Text.Timestamp

/-!
# Reading JSON of a known shape

* `Schema` : the shape of a value;
* `readAs?` : the value of a text of a shape. Members of a record that its shape does not name are
  no part of the value; they are skipped, or read by a shape of their own. A member may be repeated,
  and each time it must have its shape.
-/

namespace HostSubnets.Json

/-- The shape of a value. -/
inductive Schema where
  | anything
  | text
  | exactly (text : String)
  | truth
  | integer (least most : Int)
  /-- A text that is a time. -/
  | time
  | list (item : Schema)
  | tuple (items : List Schema)
  /-- An object whose values are of one shape. -/
  | map (value : Schema)
  /-- An object with members of known shapes, and a shape of all others if they are not skipped. -/
  | record (members : List (String × Schema)) (others : Option Schema)
  /-- A value or null. -/
  | nullable (value : Schema)

namespace Schema

def signed (bits : Nat) : Schema := .integer (-(2 ^ (bits - 1))) (2 ^ (bits - 1) - 1)

def unsigned (bits : Nat) : Schema := .integer 0 (2 ^ bits - 1)

/-- A record whose members may all be null or missing. -/
def options (members : List (String × Schema)) : Schema :=
  .record (members.map fun m => (m.1, .nullable m.2)) none

def texts (names : List String) : Schema := options (names.map fun name => (name, .text))

end Schema

def Number.toInt (n : Number) : Int := if n.negative then -(n.mantissa : Int) else n.mantissa

def readText (s : List Char) : Option (String × List Char) :=
  match skipSpace s with
  | '\x22' :: rest => (readString rest).map fun (text, rest) => (String.ofList text, rest)
  | _ => none

def readTextIf (p : String → Bool) (s : List Char) : Option (Json × List Char) :=
  match readText s with
  | some (text, rest) => if p text then some (.string text, rest) else none
  | none => none

mutual

/-- A value of a shape at the start of a text; `depth` arrays and objects may still be opened. -/
def readAs (fuel depth : Nat) (shape : Schema) (s : List Char) : Option (Json × List Char) :=
  match fuel with
  | 0 => none
  | fuel + 1 =>
    match shape with
    | .anything => readValue fuel depth s
    | .text => readTextIf (fun _ => true) s
    | .exactly text => readTextIf (· == text) s
    | .time => readTextIf (fun text => Text.isTimestamp text.toList) s
    | .truth =>
      match skipSpace s with
      | 't' :: rest => (after? "rue" rest).map fun rest => (.bool true, rest)
      | 'f' :: rest => (after? "alse" rest).map fun rest => (.bool false, rest)
      | _ => none
    | .integer least most =>
      match readNumber (skipSpace s) with
      | some (n, rest) =>
        if n.integral && least ≤ n.toInt && n.toInt ≤ most then some (.number n, rest) else none
      | none => none
    | .nullable value =>
      match skipSpace s with
      | 'n' :: rest => (after? "ull" rest).map fun rest => (.null, rest)
      | s => readAs fuel depth value s
    | .list item =>
      match skipSpace s with
      | '[' :: rest =>
        if depth = 0 then none
        else
          match skipSpace rest with
          | ']' :: rest => some (.array [], rest)
          | _ => do
            let (items, rest) ← readItemsAs fuel (depth - 1) item rest
            some (.array items, rest)
      | _ => none
    | .tuple items =>
      match skipSpace s with
      | '[' :: rest => if depth = 0 then none else readTupleAs fuel (depth - 1) items rest
      | _ => none
    | .map value => readObjectAs fuel depth [] (some value) s
    | .record members others => readObjectAs fuel depth members others s

def readObjectAs (fuel depth : Nat) (known : List (String × Schema)) (others : Option Schema)
    (s : List Char) : Option (Json × List Char) :=
  match fuel with
  | 0 => none
  | fuel + 1 =>
    match skipSpace s with
    | '\x7b' :: rest =>
      if depth = 0 then none
      else
        match skipSpace rest with
        | '\x7d' :: rest => some (.object [], rest)
        | _ => do
          let (members, rest) ← readMembersAs fuel (depth - 1) known others rest
          some (.object members, rest)
    | _ => none

def readItemsAs (fuel depth : Nat) (shape : Schema) (s : List Char) :
    Option (List Json × List Char) :=
  match fuel with
  | 0 => none
  | fuel + 1 => do
    let (item, rest) ← readAs fuel depth shape s
    match skipSpace rest with
    | ']' :: rest => some ([item], rest)
    | ',' :: rest => do
      let (items, rest) ← readItemsAs fuel depth shape rest
      some (item :: items, rest)
    | _ => none

def readTupleAs (fuel depth : Nat) (shapes : List Schema) (s : List Char) :
    Option (Json × List Char) :=
  match fuel with
  | 0 => none
  | fuel + 1 =>
    match shapes with
    | [] =>
      match skipSpace s with
      | ']' :: rest => some (.array [], rest)
      | _ => none
    | [shape] => do
      let (item, rest) ← readAs fuel depth shape s
      match skipSpace rest with
      | ']' :: rest => some (.array [item], rest)
      | _ => none
    | shape :: shapes => do
      let (item, rest) ← readAs fuel depth shape s
      match skipSpace rest with
      | ',' :: rest => do
        match ← readTupleAs fuel depth shapes rest with
        | (.array items, rest) => some (.array (item :: items), rest)
        | _ => none
      | _ => none

/-- Members up to the closing brace, without those that are skipped. -/
def readMembersAs (fuel depth : Nat) (known : List (String × Schema)) (others : Option Schema)
    (s : List Char) : Option (List (String × Json) × List Char) :=
  match fuel with
  | 0 => none
  | fuel + 1 => do
    let (name, rest) ← readText s
    match skipSpace rest with
    | ':' :: rest => do
      let (first, rest) ← match (known.lookup name).or others with
        | some shape => do
          let (value, rest) ← readAs fuel depth shape rest
          some ([(name, value)], rest)
        | none => (skipValue fuel rest).map fun rest => ([], rest)
      match skipSpace rest with
      | '\x7d' :: rest => some (first, rest)
      | ',' :: rest => do
        let (members, rest) ← readMembersAs fuel depth known others rest
        some (first ++ members, rest)
      | _ => none
    | _ => none

end

/-- The value of a text of a shape. There are at most four calls for a character, so four times the
length of the text suffices as fuel. -/
def readAs? (shape : Schema) (s : List Char) : Option Json :=
  match readAs (4 * s.length + 8) maxDepth shape s with
  | some (value, rest) => if skipSpace rest = [] then some value else none
  | none => none

end HostSubnets.Json
