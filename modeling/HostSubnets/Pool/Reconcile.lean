import HostSubnets.Pool.Request
import HostSubnets.Range

/-!
# One subnet per family for an owner

`reconcile` brings an owner to exactly one subnet of each wanted family. Of the subnets it has, the
first usable one of each family is kept and reserved, and the others are given back; what is missing
is allocated. If not everything that is missing can be allocated, nothing of it stays reserved.

* `Assignment` : the subnets of the owner, and those reserved on the way;
* `keep` : the existing subnets that stay;
* `missing` : the families without a kept subnet;
* `fill` : a subnet for each missing family, as far as there are any.
-/

namespace HostSubnets.Pool

structure Assignment where
  /-- The existing subnets that are kept, then the new ones. -/
  subnets : List Cidr
  /-- The new ones. Whoever cannot write down `subnets` has to give them back. -/
  allocated : List Cidr
deriving DecidableEq, Repr

def hasFamily (subnets : List Cidr) (family : Family) : Bool :=
  subnets.any fun subnet => subnet.family == family

/-- The existing subnets that stay, `kept` among them already. A subnet that is not kept is given
back, whoever holds it. -/
def keep (owner : String) (families : Families) (kept : List Cidr) :
    List Cidr → Program (List Cidr)
  | [] => .done kept
  | subnet :: rest => do
    if subnet ∈ kept then keep owner families kept rest
    else
      let usable ←
        if families.wants subnet.family && !hasFamily kept subnet.family then do
          match ← Task.perform (Request.mark owner [subnet]) with
          | .ok _ => pure true
          | .error _ => pure false
        else pure false
      if usable then keep owner families (kept ++ [subnet]) rest
      else do
        let _ ← Task.perform (Request.release owner [subnet])
        keep owner families kept rest

def missing (families : Families) (kept : List Cidr) : List Family :=
  [Family.v4, Family.v6].filter fun family => families.wants family && !hasFamily kept family

def giveBack (owner : String) : List Cidr → Program Unit
  | [] => .done ()
  | subnet :: rest => do
    let _ ← Task.perform (Request.release owner [subnet])
    giveBack owner rest

/-- A subnet for each family, after those allocated before; a family that is exhausted is passed
over. -/
def fill (owner : String) (allocated : List Cidr) :
    List Family → Program (Except PoolError (List Cidr))
  | [] => .done (.ok allocated)
  | family :: rest => do
    match ← Task.perform (Request.allocate owner family) with
    | .ok (some subnet) => fill owner (allocated ++ [subnet]) rest
    | .ok none => fill owner allocated rest
    | .error e => do
      giveBack owner allocated
      pure (.error e)

/-- Brings `owner` to one subnet of each family, starting from the subnets it has. -/
def reconcile (owner : String) (existing : List Cidr) (families : Families) :
    Program (Except PoolError Assignment) := do
  let kept ← keep owner families [] existing
  if kept.length = families.expected then pure (.ok ⟨kept, []⟩)
  else
    let absent := missing families kept
    match ← fill owner [] absent with
    | .error e => pure (.error e)
    | .ok allocated =>
      if allocated.length = absent.length then pure (.ok ⟨kept ++ allocated, allocated⟩)
      else do
        giveBack owner allocated
        pure (.error (.exhausted owner families.expected absent.length allocated.length))

end HostSubnets.Pool
