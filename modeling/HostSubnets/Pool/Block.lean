import HostSubnets.Pool.Error
import HostSubnets.SortedMap

/-!
# Registered ranges

A range of addresses divided into host subnets of one length, numbered from the start of the range.
Only the numbers in use are stored, each with its owner.

* `Block.of` : a range without reservations, named by its first address;
* `Block.count`, `Block.capacity` : how many host subnets there are, and the same in 128 bits;
* `Block.hostSubnet`, `Block.index?` : the subnet of a number and the number of a subnet;
* `Block.reserve`, `Block.free`, `Block.owner?` : reservations by number;
* `Block.lowestFree` : the lowest number that is not in use.
-/

namespace HostSubnets

structure Block where
  network : Cidr
  hostLength : Nat
  used : SortedMap Nat String
  aligned : network.first = network.address
  length_le : network.length ≤ hostLength
  hostLength_le : hostLength ≤ network.family.bits

namespace Block

/-- The range that a network names, divided into subnets of `hostLength`. -/
def of (network : Cidr) (hostLength : Nat) : Except PoolError Block :=
  if h : network.length ≤ hostLength ∧ hostLength ≤ network.family.bits then
    .ok { network := network.masked, hostLength, used := .empty, aligned := network.first_masked,
          length_le := h.1, hostLength_le := h.2 }
  else
    .error (.invalidRange (network.toString ++ "/" ++ toString hostLength)
      ("host subnet length must be between /" ++ toString network.length ++ " and /" ++
        toString network.family.bits))

def hostSize (b : Block) : Nat := 2 ^ (b.network.family.bits - b.hostLength)

/-- Number of host subnets. -/
def count (b : Block) : Nat := 2 ^ (b.hostLength - b.network.length)

def maxCapacity : Nat := 2 ^ 128 - 1

/-- Number of host subnets as far as 128 bits can tell. -/
def capacity (b : Block) : Nat := min b.count maxCapacity

theorem hostSize_pos (b : Block) : 0 < b.hostSize := Nat.two_pow_pos _

theorem count_mul_hostSize (b : Block) : b.count * b.hostSize = b.network.size := by
  have := b.length_le
  have := b.hostLength_le
  rw [count, hostSize, Cidr.size, ← Nat.pow_add]
  congr 1
  omega

theorem subnet_lt (b : Block) {index : Nat} (h : index < b.count) :
    b.network.address + index * b.hostSize < 2 ^ b.network.family.bits := by
  have last := b.network.last_lt
  rw [b.aligned, ← b.count_mul_hostSize] at last
  have : (index + 1) * b.hostSize ≤ b.count * b.hostSize := Nat.mul_le_mul_right _ h
  rw [Nat.succ_mul] at this
  have := b.hostSize_pos
  omega

def hostSubnet (b : Block) (index : Nat) (h : index < b.count) : Cidr where
  family := b.network.family
  address := b.network.address + index * b.hostSize
  length := b.hostLength
  address_lt := b.subnet_lt h
  length_le := b.hostLength_le

/-- The number of a subnet that is exactly one of the range's host subnets. -/
def index? (b : Block) (subnet : Cidr) : Option Nat :=
  if subnet.family = b.network.family ∧ subnet.length = b.hostLength ∧
      subnet.address = subnet.first ∧ b.network.covers subnet.address = true then
    some ((subnet.address - b.network.address) / b.hostSize)
  else none

def owner? (b : Block) (index : Nat) : Option String := b.used.find? index

def reserve (b : Block) (index : Nat) (owner : String) : Block :=
  { b with used := b.used.insert index owner }

def free (b : Block) (index : Nat) : Block := { b with used := b.used.erase index }

/-- The lowest number from `candidate` on that is missing in an increasing list. -/
def gap (candidate : Nat) : List Nat → Nat
  | [] => candidate
  | index :: rest => if index = candidate then gap (candidate + 1) rest else candidate

/-- The lowest number that is not in use, if there is one below the capacity. -/
def lowestFree (b : Block) : Option { index : Nat // index < b.count } :=
  let index := gap 0 b.used.keys
  if h : index < b.capacity then some ⟨index, Nat.lt_of_lt_of_le h (Nat.min_le_left _ _)⟩ else none

end Block

end HostSubnets
