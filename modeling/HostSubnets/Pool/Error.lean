import HostSubnets.Cidr.Text

/-!
# Errors of the subnet pools

* `PoolError` : why a range is not accepted, or a subnet not reserved or released;
* `PoolError.message` : the text of each.
-/

namespace HostSubnets

inductive PoolError where
  | invalidRange (range reason : String)
  /-- A range shares addresses with a registered one. -/
  | rangeOverlap (range existing : Cidr)
  | noRange (family : Family)
  /-- The subnet is not one that a registered range is divided into. -/
  | outOfRange (subnet : Cidr)
  | alreadyAllocated (subnet : Cidr) (owner : String)
  | notOwned (subnet : Cidr) (owner : String)
  /-- Fewer subnets are free than an owner misses. -/
  | exhausted (owner : String) (expected missing allocated : Nat)
deriving DecidableEq, Repr

def PoolError.message : PoolError → String
  | .invalidRange range reason => "invalid range " ++ range ++ ": " ++ reason
  | .rangeOverlap range existing =>
    "range " ++ range.toString ++ " overlaps registered range " ++ existing.toString
  | .noRange family => "no " ++ family.name ++ " range registered"
  | .outOfRange subnet =>
    "subnet " ++ subnet.toString ++ " is not a host subnet of any registered range"
  | .alreadyAllocated subnet owner =>
    "subnet " ++ subnet.toString ++ " is already allocated to " ++ owner
  | .notOwned subnet owner => "subnet " ++ subnet.toString ++ " is not allocated to " ++ owner
  | .exhausted owner expected missing allocated =>
    "error allocating subnets for " ++ owner ++ ": " ++ toString expected ++
      " subnets expected, " ++ toString missing ++ " missing, only " ++ toString allocated ++
      " allocated"

end HostSubnets
