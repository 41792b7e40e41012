import HostSubnets.Number.Double

/-!
# The size of numbers in JSON

A number is taken in double precision as its leading digits, as far as they fit into 64 bits, times
a power of ten. Both factors are rounded before they are multiplied, so a number close to the
largest one may be out of range although its value is not.

* `leadWhole`, `leadFraction` : the leading digits before and after the point;
* `inRange` : whether the product is finite.
-/

namespace HostSubnets.Json

/-- The largest number that leading digits may make. -/
def maxLead : Nat := 2 ^ 64 - 1

def extendLead (lead : Nat) (digit : Char) : Nat := 10 * lead + (digit.toNat - '0'.toNat)

/-- Digits before the point: the number that the leading ones make after others, and how many are
left out. -/
def leadWhole (lead : Nat) : List Char → Nat × Nat
  | [] => (lead, 0)
  | c :: rest =>
    if extendLead lead c ≤ maxLead then leadWhole (extendLead lead c) rest
    else (lead, rest.length + 1)

/-- Digits after the point: the number that the leading ones make after others, and how many they
are. -/
def leadFraction (lead : Nat) : List Char → Nat × Nat
  | [] => (lead, 0)
  | c :: rest =>
    if extendLead lead c ≤ maxLead then
      let (lead, taken) := leadFraction (extendLead lead c) rest
      (lead, taken + 1)
    else (lead, 0)

def maxPower : Int := 308

/-- Whether the digits before and after the point, times a power of ten, are in range. -/
def inRange (whole fraction : List Char) (power : Int) : Bool :=
  let (lead, dropped) := leadWhole 0 whole
  let (lead, taken) := leadFraction lead fraction
  let exponent := power + dropped - taken
  lead == 0 || exponent < 0 ||
    (exponent ≤ maxPower &&
      ((Double.ofRatio false lead 1).mul? (.ofDecimal false 1 exponent)).isSome)

end HostSubnets.Json
