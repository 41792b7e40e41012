import HostSubnets.Pool.Error
import HostSubnets.Text.Blank

/-!
# Configured ranges

A network and the length of the host subnets it is divided into, written `10.128.0.0/14/23`. The
second length may be left out.

* `SubnetRange.read` : the range that a text names, blanks around it ignored. Only a text with
  exactly two slashes has a second length. Bounds of that length are not checked here;
* `SubnetRange.toString` : the text of a range, both lengths written;
* `Families` : the address families an owner must hold one subnet of, and those of a list of ranges
  (`Families.ofRanges`).
-/

namespace HostSubnets

open HostSubnets.Text

structure SubnetRange where
  network : Cidr
  hostLength : Nat
  hostLength_lt : hostLength < 256
deriving DecidableEq, Repr

namespace SubnetRange

/-- Length of the host subnets where a range gives none. -/
def defaultHostLength : Family → Nat
  | .v4 => 24
  | .v6 => 64

theorem defaultHostLength_lt (f : Family) : defaultHostLength f < 256 := by cases f <;> decide

def family (r : SubnetRange) : Family := r.network.family

def splitLast (s : List Char) : List Char × List Char :=
  let last := (s.reverse.takeWhile (· != '/')).reverse
  (s.take (s.length - last.length - 1), last)

/-- The second length of a range. -/
def readHostLength (s : List Char) : Except NumeralError { length : Nat // length < 256 } :=
  match readNat 255 s with
  | .error e => .error e
  | .ok length => if h : length < 256 then .ok ⟨length, h⟩ else .error .tooLarge

/-- The range that a text without blanks around it names, or what is wrong with it. -/
def readTrimmed (s : List Char) : Except String SubnetRange :=
  if s.count '/' = 2 then
    let (network, length) := splitLast s
    match readHostLength length with
    | .error e => .error ("host subnet length: " ++ e.message)
    | .ok length =>
      match Cidr.read network with
      | some c => .ok ⟨c, length.1, length.2⟩
      | none => .error (Cidr.invalidAddress network)
  else
    match Cidr.read s with
    | some c => .ok ⟨c, defaultHostLength c.family, defaultHostLength_lt c.family⟩
    | none => .error (Cidr.invalidAddress s)

def read (s : List Char) : Except PoolError SubnetRange :=
  match readTrimmed (trim s) with
  | .ok r => .ok r
  | .error reason => .error (.invalidRange (String.ofList (trim s)) reason)

def write (r : SubnetRange) : List Char := r.network.write ++ '/' :: showNat r.hostLength

protected def toString (r : SubnetRange) : String := String.ofList r.write

end SubnetRange

/-- Address families that an owner must hold one subnet of. -/
structure Families where
  v4 : Bool
  v6 : Bool
deriving DecidableEq, Repr

namespace Families

def onlyV4 : Families := ⟨true, false⟩

def ofRanges (ranges : List SubnetRange) : Families :=
  ⟨ranges.any fun r => r.family == .v4, ranges.any fun r => r.family == .v6⟩

def wants (f : Families) : Family → Bool
  | .v4 => f.v4
  | .v6 => f.v6

def isEmpty (f : Families) : Bool := !f.v4 && !f.v6

/-- Number of subnets of an owner that has one of each family. -/
def expected (f : Families) : Nat := if f.v4 && f.v6 then 2 else 1

end Families

end HostSubnets
