import HostSubnets.Json.Basic
import HostSubnets.Json.Magnitude

/-!
# Reading JSON strictly

* `Json.read?` : the value of a text that is JSON and nothing else. Blanks may stand around values
  and punctuation; a comma must be followed by another entry; no character below U+0020 may stand
  in a string; escapes of surrogates must come in pairs; arrays and objects nest at most
  `maxDepth` deep; a number must be in range (`inRange`).
* `readString`, `readNumber`, `readValue` : a string, a number or a value at the start of a text,
  with what follows it;
* `skipString`, `skipNumber`, `skipValue` : what follows a string, a number or a value that nobody
  asks for. It must be JSON, but half a pair of surrogates may stand alone, values may nest as deep
  and numbers be as large as they like.
-/

namespace HostSubnets.Json

open HostSubnets.Text (hexValue)

/-- Arrays and objects may be nested so deep. -/
def maxDepth : Nat := 127

def isSpace (c : Char) : Bool := c == ' ' || c == '\t' || c == '\n' || c == '\r'

def skipSpace (s : List Char) : List Char := s.dropWhile isSpace

/-! ## Strings -/

/-- The code unit of four hexadecimal digits. -/
def unit? (a b c d : Char) : Option Nat := do
  let a ← hexValue a
  let b ← hexValue b
  let c ← hexValue c
  let d ← hexValue d
  some (((a * 16 + b) * 16 + c) * 16 + d)

def isLeading (unit : Nat) : Bool := 0xd800 ≤ unit && unit < 0xdc00

def isTrailing (unit : Nat) : Bool := 0xdc00 ≤ unit && unit < 0xe000

def unescape (c : Char) : Option Char :=
  match c with
  | '\x22' => some '\x22'
  | '\x5c' => some '\x5c'
  | '/' => some '/'
  | 'b' => some '\x08'
  | 'f' => some '\x0c'
  | 'n' => some '\n'
  | 'r' => some '\r'
  | 't' => some '\t'
  | _ => none

/-- The characters of a string up to the closing quote, and the text after it. -/
def readString : List Char → Option (List Char × List Char)
  | [] => none
  | '\x22' :: rest => some ([], rest)
  | '\x5c' :: 'u' :: a :: b :: c :: d :: rest =>
    match unit? a b c d with
    | none => none
    | some unit =>
      if isTrailing unit then none
      else if isLeading unit then
        match rest with
        | '\x5c' :: 'u' :: a' :: b' :: c' :: d' :: rest =>
          match unit? a' b' c' d' with
          | none => none
          | some low =>
            if isTrailing low then do
              let (tail, rest) ← readString rest
              let point := 0x10000 + (unit - 0xd800) * 0x400 + (low - 0xdc00)
              some (Char.ofNat point :: tail, rest)
            else none
        | _ => none
      else do
        let (tail, rest) ← readString rest
        some (Char.ofNat unit :: tail, rest)
  | '\x5c' :: c :: rest => do
    let c ← unescape c
    let (tail, rest) ← readString rest
    some (c :: tail, rest)
  | c :: rest =>
    if c.toNat < 0x20 || c = '\x5c' then none
    else do
      let (tail, rest) ← readString rest
      some (c :: tail, rest)

/-! ## Numbers -/

def readDigits (s : List Char) : Option (List Char × List Char) :=
  let digits := s.takeWhile Char.isDigit
  if digits = [] then none else some (digits, s.drop digits.length)

/-- A point and digits, if there is a point. -/
def readFraction (s : List Char) : Option (List Char × List Char) :=
  match s with
  | '.' :: rest => readDigits rest
  | _ => some ([], s)

def readExponent (s : List Char) : Option (Option Int × List Char) :=
  let signed (s : List Char) : Option (Option Int × List Char) :=
    match s with
    | '-' :: rest => do
      let (digits, rest) ← readDigits rest
      some (some (-(Nat.ofDigitChars 10 digits 0 : Int)), rest)
    | '+' :: rest => do
      let (digits, rest) ← readDigits rest
      some (some (Nat.ofDigitChars 10 digits 0 : Int), rest)
    | rest => do
      let (digits, rest) ← readDigits rest
      some (some (Nat.ofDigitChars 10 digits 0 : Int), rest)
  match s with
  | 'e' :: rest => signed rest
  | 'E' :: rest => signed rest
  | _ => some (none, s)

/-- The parts of a number without its sign: the digits before and after the point and the exponent,
if there is one. -/
def readParts (s : List Char) : Option ((List Char × List Char × Option Int) × List Char) := do
  let (whole, s) ← readDigits s
  if whole.head? = some '0' ∧ 1 < whole.length then none
  else
    let (fraction, s) ← readFraction s
    let (exponent, s) ← readExponent s
    some ((whole, fraction, exponent), s)

def readUnsigned (negative : Bool) (s : List Char) : Option (Number × List Char) := do
  let ((whole, fraction, exponent), s) ← readParts s
  if inRange whole fraction (exponent.getD 0) then
    let mantissa := Nat.ofDigitChars 10 (whole ++ fraction) 0
    let integral := fraction.isEmpty && exponent.isNone && !(negative && mantissa == 0)
    some (⟨negative, mantissa, exponent.getD 0 - fraction.length, integral⟩, s)
  else none

def readNumber (s : List Char) : Option (Number × List Char) :=
  match s with
  | '-' :: rest => readUnsigned true rest
  | s => readUnsigned false s

/-! ## Values -/

def after? (word : String) (s : List Char) : Option (List Char) :=
  if word.toList.isPrefixOf s then some (s.drop word.length) else none

mutual

/-- A value at the start of a text; `depth` arrays and objects may still be opened. -/
def readValue (fuel depth : Nat) (s : List Char) : Option (Json × List Char) :=
  match fuel with
  | 0 => none
  | fuel + 1 =>
    match skipSpace s with
    | [] => none
    | '\x22' :: rest => do
      let (value, rest) ← readString rest
      some (.string (String.ofList value), rest)
    | '[' :: rest =>
      if depth = 0 then none
      else
        match skipSpace rest with
        | ']' :: rest => some (.array [], rest)
        | _ => do
          let (items, rest) ← readItems fuel (depth - 1) rest
          some (.array items, rest)
    | '\x7b' :: rest =>
      if depth = 0 then none
      else
        match skipSpace rest with
        | '\x7d' :: rest => some (.object [], rest)
        | _ => do
          let (members, rest) ← readMembers fuel (depth - 1) rest
          some (.object members, rest)
    | 't' :: rest => (after? "rue" rest).map fun rest => (.bool true, rest)
    | 'f' :: rest => (after? "alse" rest).map fun rest => (.bool false, rest)
    | 'n' :: rest => (after? "ull" rest).map fun rest => (.null, rest)
    | s => do
      let (value, rest) ← readNumber s
      some (.number value, rest)

def readItems (fuel depth : Nat) (s : List Char) : Option (List Json × List Char) :=
  match fuel with
  | 0 => none
  | fuel + 1 => do
    let (item, rest) ← readValue fuel depth s
    match skipSpace rest with
    | ']' :: rest => some ([item], rest)
    | ',' :: rest => do
      let (items, rest) ← readItems fuel depth rest
      some (item :: items, rest)
    | _ => none

def readMembers (fuel depth : Nat) (s : List Char) : Option (List (String × Json) × List Char) :=
  match fuel with
  | 0 => none
  | fuel + 1 =>
    match skipSpace s with
    | '\x22' :: rest => do
      let (name, rest) ← readString rest
      match skipSpace rest with
      | ':' :: rest => do
        let (value, rest) ← readValue fuel depth rest
        match skipSpace rest with
        | '\x7d' :: rest => some ([(String.ofList name, value)], rest)
        | ',' :: rest => do
          let (members, rest) ← readMembers fuel depth rest
          some ((String.ofList name, value) :: members, rest)
        | _ => none
      | _ => none
    | _ => none

end

/-! ## Values that nobody asks for -/

def skipString : List Char → Option (List Char)
  | [] => none
  | '\x22' :: rest => some rest
  | '\x5c' :: 'u' :: a :: b :: c :: d :: rest =>
    if (unit? a b c d).isSome then skipString rest else none
  | '\x5c' :: c :: rest => if (unescape c).isSome then skipString rest else none
  | c :: rest => if c.toNat < 0x20 || c = '\x5c' then none else skipString rest

def skipNumber (s : List Char) : Option (List Char) :=
  match s with
  | '-' :: rest => (readParts rest).map (·.2)
  | s => (readParts s).map (·.2)

mutual

def skipValue (fuel : Nat) (s : List Char) : Option (List Char) :=
  match fuel with
  | 0 => none
  | fuel + 1 =>
    match skipSpace s with
    | [] => none
    | '\x22' :: rest => skipString rest
    | '[' :: rest =>
      match skipSpace rest with
      | ']' :: rest => some rest
      | _ => skipItems fuel rest
    | '\x7b' :: rest =>
      match skipSpace rest with
      | '\x7d' :: rest => some rest
      | _ => skipMembers fuel rest
    | 't' :: rest => after? "rue" rest
    | 'f' :: rest => after? "alse" rest
    | 'n' :: rest => after? "ull" rest
    | s => skipNumber s

def skipItems (fuel : Nat) (s : List Char) : Option (List Char) :=
  match fuel with
  | 0 => none
  | fuel + 1 => do
    match skipSpace (← skipValue fuel s) with
    | ']' :: rest => some rest
    | ',' :: rest => skipItems fuel rest
    | _ => none

def skipMembers (fuel : Nat) (s : List Char) : Option (List Char) :=
  match fuel with
  | 0 => none
  | fuel + 1 =>
    match skipSpace s with
    | '\x22' :: rest => do
      match skipSpace (← skipString rest) with
      | ':' :: rest => do
        match skipSpace (← skipValue fuel rest) with
        | '\x7d' :: rest => some rest
        | ',' :: rest => skipMembers fuel rest
        | _ => none
      | _ => none
    | _ => none

end

/-! ## Texts -/

/-- The value of a text. Each call for a value or entry takes a character, so twice the length of
the text suffices as fuel. -/
def read? (s : List Char) : Option Json :=
  match readValue (2 * s.length + 2) maxDepth s with
  | some (value, rest) => if skipSpace rest = [] then some value else none
  | none => none

end HostSubnets.Json
