import HostSubnets.Cidr.V6

/-!
# Listening addresses

An IP address with the number of a service: `0.0.0.0:9090`, `[::]:80`, and with a scope
`[fe80::1%3]:80`.

* `Endpoint.read`, `Endpoint.toString` : the text form in both directions.
-/

namespace HostSubnets

open HostSubnets.Text (showNat)

/-- An address and the number of a service; IPv6 addresses may be scoped to an interface. -/
inductive Endpoint where
  | v4 (address service : Nat)
  | v6 (address scope service : Nat)
deriving DecidableEq, Repr

namespace Endpoint

/-- A number of at most `max`, leading zeros allowed, at the start of a text. -/
def readNumber (max : Nat) (s : List Char) : Option (Nat × List Char) :=
  let digits := s.takeWhile Char.isDigit
  let value := Nat.ofDigitChars 10 digits 0
  if digits = [] ∨ max < value then none else some (value, s.drop digits.length)

def readService (s : List Char) : Option Nat :=
  match s with
  | ':' :: rest =>
    match readNumber 65535 rest with
    | some (service, []) => some service
    | _ => none
  | _ => none

def readV4 (s : List Char) : Option Endpoint := do
  let (address, s) ← V4.readStart s
  some (.v4 address (← readService s))

def readV6 (s : List Char) : Option Endpoint :=
  match s with
  | '[' :: s => do
    let (address, s) ← V6.readStart s
    let (scope, s) ← match s with
      | '%' :: rest => readNumber 4294967295 rest
      | _ => some (0, s)
    match s with
    | ']' :: rest => some (.v6 address scope (← readService rest))
    | _ => none
  | _ => none

/-- The endpoint that a text names. -/
def read (s : List Char) : Option Endpoint := readV4 s <|> readV6 s

def write : Endpoint → List Char
  | .v4 address service => V4.write address ++ ':' :: showNat service
  | .v6 address scope service =>
    let zone := if scope = 0 then [] else '%' :: showNat scope
    '[' :: V6.write address ++ zone ++ ']' :: ':' :: showNat service

protected def toString (e : Endpoint) : String := String.ofList e.write

end Endpoint

end HostSubnets
