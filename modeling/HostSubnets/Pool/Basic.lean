import HostSubnets.Pool.Block

/-!
# Subnet pools

Host subnets of one or more registered ranges, each reserved for at most one owner at a time. What
an owner holds is listed in reservation order.

* `Pool.addRange` : registers a range that shares no address with those of its family;
* `Pool.allocate` : reserves the first free subnet of a family, ranges in registration order;
* `Pool.mark`, `Pool.release` : reserve and give back known subnets. Every subnet is attempted, and
  the first failure is reported;
* `Pool.releaseAll` : gives back everything an owner holds;
* `Pool.allocated` : what an owner holds;
* `Pool.count`, `Pool.usage` : host subnets in all and in use, per family.
-/

namespace HostSubnets

structure PerFamily (α : Type) where
  v4 : α
  v6 : α
deriving DecidableEq, Repr

def PerFamily.of {α : Type} (f : Family → α) : PerFamily α := ⟨f .v4, f .v6⟩

def PerFamily.get {α : Type} (p : PerFamily α) : Family → α
  | .v4 => p.v4
  | .v6 => p.v6

structure Pool where
  /-- The registered ranges, in registration order. -/
  blocks : List Block
  /-- The subnets of each owner, in reservation order. -/
  held : SortedMap String (List Cidr)

namespace Pool

def empty : Pool := ⟨[], .empty⟩

instance : Inhabited Pool := ⟨empty⟩

/-! ## Ranges -/

def addRange (network : Cidr) (hostLength : Nat) (p : Pool) : Except PoolError Unit × Pool :=
  match Block.of network hostLength with
  | .error e => (.error e, p)
  | .ok block =>
    match p.blocks.find? fun b => b.network.overlaps block.network with
    | some existing => (.error (.rangeOverlap block.network existing.network), p)
    | none => (.ok (), { p with blocks := p.blocks ++ [block] })

/-- Position of the range that a subnet is a host subnet of, and its number there. -/
def locate (subnet : Cidr) : List Block → Option (Nat × Nat)
  | [] => none
  | b :: rest =>
    match b.index? subnet with
    | some index => some (0, index)
    | none => (locate subnet rest).map fun (position, index) => (position + 1, index)

def ownerAt (blocks : List Block) (place : Nat × Nat) : Option String :=
  blocks[place.1]?.bind (·.owner? place.2)

/-! ## Reservations -/

/-- Adds a subnet at the end of what an owner holds. -/
def hold (owner : String) (subnet : Cidr) (held : SortedMap String (List Cidr)) :
    SortedMap String (List Cidr) :=
  held.insert owner ((held.find? owner).getD [] ++ [subnet])

def drop (owner : String) (subnet : Cidr) (held : SortedMap String (List Cidr)) :
    SortedMap String (List Cidr) :=
  match held.find? owner with
  | none => held
  | some subnets =>
    match subnets.filter (· ≠ subnet) with
    | [] => held.erase owner
    | rest => held.insert owner rest

def allocated (owner : String) (p : Pool) : List Cidr := (p.held.find? owner).getD []

/-- The first free subnet of a family, and the ranges with it reserved. -/
def take (owner : String) (family : Family) : List Block → Option (Cidr × List Block)
  | [] => none
  | b :: rest =>
    let later := fun _ : Unit =>
      (take owner family rest).map fun (subnet, rest) => (subnet, b :: rest)
    if b.network.family = family then
      match b.lowestFree with
      | some ⟨index, h⟩ => some (b.hostSubnet index h, b.reserve index owner :: rest)
      | none => later ()
    else later ()

/-- Reserves a free subnet; none if every range of the family is fully reserved. -/
def allocate (owner : String) (family : Family) (p : Pool) :
    Except PoolError (Option Cidr) × Pool :=
  if p.blocks.any fun b => b.network.family == family then
    match take owner family p.blocks with
    | some (subnet, blocks) => (.ok (some subnet), ⟨blocks, hold owner subnet p.held⟩)
    | none => (.ok none, p)
  else (.error (.noRange family), p)

/-- Reserves one known subnet. It may already be the owner's. -/
def markOne (owner : String) (p : Pool) (subnet : Cidr) : Except PoolError Pool :=
  match locate subnet p.blocks with
  | none => .error (.outOfRange subnet)
  | some place =>
    match ownerAt p.blocks place with
    | some current => if current = owner then .ok p else .error (.alreadyAllocated subnet current)
    | none =>
      .ok ⟨p.blocks.modify place.1 (·.reserve place.2 owner), hold owner subnet p.held⟩

def releaseOne (owner : String) (p : Pool) (subnet : Cidr) : Except PoolError Pool :=
  match locate subnet p.blocks with
  | none => .error (.outOfRange subnet)
  | some place =>
    if ownerAt p.blocks place = some owner then
      .ok ⟨p.blocks.modify place.1 (·.free place.2), drop owner subnet p.held⟩
    else .error (.notOwned subnet owner)

/-- Attempts every subnet and reports the first failure. -/
def attemptAll (attempt : Pool → Cidr → Except PoolError Pool) :
    List Cidr → Pool → Except PoolError Unit × Pool
  | [], p => (.ok (), p)
  | subnet :: rest, p =>
    match attempt p subnet with
    | .ok p => attemptAll attempt rest p
    | .error e => (.error e, (attemptAll attempt rest p).2)

def mark (owner : String) (subnets : List Cidr) (p : Pool) : Except PoolError Unit × Pool :=
  attemptAll (markOne owner) subnets p

/-- Gives back subnets; those that the owner does not hold stay as they are. -/
def release (owner : String) (subnets : List Cidr) (p : Pool) : Except PoolError Unit × Pool :=
  attemptAll (releaseOne owner) subnets p

def freeOwned (owner : String) (blocks : List Block) (subnet : Cidr) : List Block :=
  match locate subnet blocks with
  | none => blocks
  | some place =>
    if ownerAt blocks place = some owner then blocks.modify place.1 (·.free place.2) else blocks

/-- Gives back everything an owner holds and returns it. -/
def releaseAll (owner : String) (p : Pool) : List Cidr × Pool :=
  match p.held.find? owner with
  | none => ([], p)
  | some subnets => (subnets, ⟨subnets.foldl (freeOwned owner) p.blocks, p.held.erase owner⟩)

/-! ## Figures -/

def maxCount : Nat := 2 ^ 64 - 1

/-- Host subnets of a family, free and reserved, as far as 64 bits can tell. -/
def countOf (blocks : List Block) (family : Family) : Nat :=
  let total := blocks.foldl (fun sum b =>
    if b.network.family = family then min (sum + b.capacity) Block.maxCapacity else sum) 0
  min total maxCount

def usageOf (blocks : List Block) (family : Family) : Nat :=
  blocks.foldl (fun sum b => if b.network.family = family then sum + b.used.size else sum) 0

def count (p : Pool) : PerFamily Nat := .of (countOf p.blocks)

def usage (p : Pool) : PerFamily Nat := .of (usageOf p.blocks)

end Pool

end HostSubnets
