import HostSubnets.Text.Numeral

/-!
# JSON values

* `Json` : a value; an object keeps its members in the order of the text, repeated names included;
* `Json.write` : the text of a value without blanks;
* `Json.writeString` : a string between double quotes. Only the quote, the backslash and the
  characters below U+0020 are escaped, all others are written as they are.
-/

namespace HostSubnets

open HostSubnets.Text (showNat showInt)

/-- A number as written: `mantissa * 10 ^ exponent`, and whether it is written as an integer, without
a point and an exponent part. Zero with a minus sign is no integer. -/
structure Json.Number where
  negative : Bool
  mantissa : Nat
  exponent : Int
  integral : Bool
deriving DecidableEq, Repr

inductive Json where
  | null
  | bool (value : Bool)
  | number (value : Json.Number)
  | string (value : String)
  | array (items : List Json)
  | object (members : List (String × Json))

namespace Json

def ofNat (n : Nat) : Json := .number ⟨false, n, 0, true⟩

/-- The written form of a character between double quotes. -/
def escape (c : Char) : List Char :=
  match c with
  | '\x22' => ['\\', '\x22']
  | '\x5c' => ['\\', '\\']
  | '\x08' => ['\\', 'b']
  | '\x0c' => ['\\', 'f']
  | '\n' => ['\\', 'n']
  | '\r' => ['\\', 'r']
  | '\t' => ['\\', 't']
  | c =>
    if c.toNat < 0x20 then
      ['\\', 'u', '0', '0', Nat.digitChar (c.toNat / 16), Nat.digitChar (c.toNat % 16)]
    else [c]

def writeString (s : String) : List Char :=
  '\x22' :: s.toList.flatMap escape ++ ['\x22']

def writeNumber (n : Number) : List Char :=
  let sign := if n.negative then ['-'] else []
  let power := if n.integral then [] else 'e' :: showInt n.exponent
  sign ++ showNat n.mantissa ++ power

mutual

def write : Json → List Char
  | .null => "null".toList
  | .bool true => "true".toList
  | .bool false => "false".toList
  | .number n => writeNumber n
  | .string s => writeString s
  | .array items => '[' :: writeItems items ++ [']']
  | .object members => '\x7b' :: writeMembers members ++ ['\x7d']

def writeItems : List Json → List Char
  | [] => []
  | [item] => write item
  | item :: rest => write item ++ ',' :: writeItems rest

def writeMembers : List (String × Json) → List Char
  | [] => []
  | [(name, value)] => writeString name ++ ':' :: write value
  | (name, value) :: rest =>
    writeString name ++ ':' :: write value ++ ',' :: writeMembers rest

end

/-- The text of a value. -/
protected def toString (j : Json) : String := String.ofList j.write

end Json

end HostSubnets
