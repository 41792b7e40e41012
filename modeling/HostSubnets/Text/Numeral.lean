/-!
# Numerals of bounded size

* `readNat max` : an optional plus sign and decimal digits, leading zeros allowed, at most `max`;
* `readInt bits` : the same with either sign, in the range of a `bits`-bit signed number;
* `NumeralError` : why a text is no such numeral. Digits are taken from the left, so a number that
  grows too large is reported before a wrong character further right;
* `showNat`, `showInt` : the shortest numeral;
* `hexValue` : the value of a hexadecimal digit in either case.

Powers of natural numbers are those of the core library, whatever else a module imports.
-/

attribute [instance (high), default_instance (high + 1)] instPowNat

namespace HostSubnets.Text

/-- Why a text is not an integer of the wanted size. -/
inductive NumeralError where
  | empty
  | invalidDigit
  | tooLarge
  | tooSmall
deriving DecidableEq, Repr

def NumeralError.message : NumeralError → String
  | .empty => "cannot parse integer from empty string"
  | .invalidDigit => "invalid digit found in string"
  | .tooLarge => "number too large to fit in target type"
  | .tooSmall => "number too small to fit in target type"

/-- Decimal digits continuing the number `value`, which may reach `max` but not pass it. -/
def readDigits (max : Nat) (beyond : NumeralError) (value : Nat) :
    List Char → Except NumeralError Nat
  | [] => .ok value
  | c :: rest =>
    if c.isDigit then
      let grown := 10 * value + (c.toNat - '0'.toNat)
      if max < grown then .error beyond else readDigits max beyond grown rest
    else .error .invalidDigit

def readNat (max : Nat) (s : List Char) : Except NumeralError Nat :=
  match s with
  | [] => .error .empty
  | ['+'] => .error .invalidDigit
  | '+' :: digits => readDigits max .tooLarge 0 digits
  | digits => readDigits max .tooLarge 0 digits

def readInt (bits : Nat) (s : List Char) : Except NumeralError Int :=
  match s with
  | [] => .error .empty
  | ['+'] => .error .invalidDigit
  | ['-'] => .error .invalidDigit
  | '-' :: digits => (readDigits (2 ^ (bits - 1)) .tooSmall 0 digits).map fun n => -(n : Int)
  | '+' :: digits => (readDigits (2 ^ (bits - 1) - 1) .tooLarge 0 digits).map Int.ofNat
  | digits => (readDigits (2 ^ (bits - 1) - 1) .tooLarge 0 digits).map Int.ofNat

/-- The decimal digits of a number, without leading zeros. -/
def showNat (n : Nat) : List Char := Nat.toDigits 10 n

def showInt : Int → List Char
  | .ofNat n => showNat n
  | .negSucc n => '-' :: showNat (n + 1)

def hexValue (c : Char) : Option Nat :=
  if c.isDigit then some (c.toNat - '0'.toNat)
  else if 'a' ≤ c ∧ c ≤ 'f' then some (c.toNat - 'a'.toNat + 10)
  else if 'A' ≤ c ∧ c ≤ 'F' then some (c.toNat - 'A'.toNat + 10)
  else none

end HostSubnets.Text
