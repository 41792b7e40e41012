import HostSubnets.Text.Numeral

/-!
# Numbers of 53 significant bits

Double precision numbers by their values, with multiplication and addition of numbers that are not
negative. Results are rounded to the nearest number, and of two equally near ones to the one with an
even mantissa.

* `Double` : a value `mantissa * 2 ^ exponent`, an infinity, or no number;
* `roundDiv` : a quotient rounded to the nearest integer, ties to even;
* `Double.ofRatio` : the number nearest to a quotient;
* `Double.ofDecimal` : the number nearest to a decimal;
* `Double.mul?`, `Double.add` : products and sums of finite numbers, signs left out of account.
-/

namespace HostSubnets

inductive Double where
  | nan
  | infinite (negative : Bool)
  | finite (negative : Bool) (mantissa : Nat) (exponent : Int)
deriving DecidableEq, Repr

/-- The integer nearest to a quotient; of two the even one. -/
def roundDiv (num den : Nat) : Nat :=
  let floor := num / den
  let twice := 2 * (num % den)
  if den < twice ∨ (twice = den ∧ floor % 2 = 1) then floor + 1 else floor

namespace Double

/-- The quotient of `num` by `den * 2 ^ exponent` as a pair. -/
def scaleRatio (num den : Nat) : Int → Nat × Nat
  | .ofNat n => (num, den * 2 ^ n)
  | .negSucc n => (num * 2 ^ (n + 1), den)

def minExponent : Int := -1074

/-- The exponent with which a quotient has 53 significant bits. -/
def exponentOf (num den : Nat) : Int :=
  let guess : Int := (Nat.log2 num : Int) - Nat.log2 den - 52
  let (n, d) := scaleRatio num den guess
  max minExponent (if n < 2 ^ 52 * d then guess - 1 else guess)

/-- The value of a number as a pair of numerator and denominator. -/
def ratio (mantissa : Nat) : Int → Nat × Nat
  | .ofNat n => (mantissa * 2 ^ n, 1)
  | .negSucc n => (mantissa, 2 ^ (n + 1))

/-- The number nearest to a quotient. -/
def ofRatio (negative : Bool) (num den : Nat) : Double :=
  if num = 0 then .finite negative 0 0
  else
    let exponent := exponentOf num den
    let (n, d) := scaleRatio num den exponent
    let mantissa := roundDiv n d
    let (n, d) := ratio mantissa exponent
    if 2 ^ 1024 * d ≤ n then .infinite negative else .finite negative mantissa exponent

def ofDecimal (negative : Bool) (mantissa : Nat) : Int → Double
  | .ofNat n => ofRatio negative (mantissa * 10 ^ n) 1
  | .negSucc n => ofRatio negative mantissa (10 ^ (n + 1))

def one : Double := .finite false 1 0

def exceedsOne : Double → Bool
  | .nan => false
  | .infinite negative => !negative
  | .finite true _ _ => false
  | .finite false mantissa exponent =>
    let (n, d) := ratio mantissa exponent
    d < n

def isNonpositive : Double → Bool
  | .nan => false
  | .infinite negative => negative
  | .finite negative mantissa _ => negative || mantissa == 0

def isFinite : Double → Bool
  | .finite .. => true
  | _ => false

/-- The product of two numbers that are not negative; none unless both and the product are
finite. -/
def mul? : Double → Double → Option Double
  | .finite _ m e, .finite _ m' e' =>
    let (n, d) := ratio (m * m') (e + e')
    let product := ofRatio false n d
    if product.isFinite then some product else none
  | _, _ => none

def addRatios (a b : Nat × Nat) : Double := ofRatio false (a.1 * b.2 + b.1 * a.2) (a.2 * b.2)

def add : Double → Double → Double
  | .finite _ m e, .finite _ m' e' => addRatios (ratio m e) (ratio m' e')
  | _, _ => .nan

end Double

end HostSubnets
