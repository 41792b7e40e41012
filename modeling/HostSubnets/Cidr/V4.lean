import HostSubnets.Text.Numeral

/-!
# IPv4 addresses as text

Four decimal numbers below 256 with points between them and no leading zeros.

* `readStart` : an address at the start of a text and what follows it;
* `read` : a text that is an address and nothing else;
* `write` : the text of an address.
-/

namespace HostSubnets.V4

open HostSubnets.Text (showNat)

/-- A number below 256 of one to three digits without a leading zero. -/
def readOctet (s : List Char) : Option (Nat × List Char) :=
  let digits := s.takeWhile Char.isDigit
  let value := Nat.ofDigitChars 10 digits 0
  if digits = [] ∨ 3 < digits.length ∨ (digits.head? = some '0' ∧ 1 < digits.length) ∨ 255 < value
  then none
  else some (value, s.drop digits.length)

def readNextOctet (s : List Char) : Option (Nat × List Char) :=
  match s with
  | '.' :: rest => readOctet rest
  | _ => none

/-- The address at the start of a text, and the text after it. -/
def readStart (s : List Char) : Option (Nat × List Char) := do
  let (a, s) ← readOctet s
  let (b, s) ← readNextOctet s
  let (c, s) ← readNextOctet s
  let (d, s) ← readNextOctet s
  some (((a * 256 + b) * 256 + c) * 256 + d, s)

def read (s : List Char) : Option Nat :=
  match readStart s with
  | some (address, []) => some address
  | _ => none

def write (address : Nat) : List Char :=
  showNat (address / 256 ^ 3 % 256) ++ '.' :: showNat (address / 256 ^ 2 % 256) ++
    '.' :: showNat (address / 256 % 256) ++ '.' :: showNat (address % 256)

/-- The length of a netmask: `length` ones, then zeros. -/
def netmaskLength (mask : Nat) : Option Nat :=
  (List.range 33).find? fun length => mask + 2 ^ (32 - length) == 2 ^ 32

end HostSubnets.V4
