import HostSubnets.Text.Numeral

/-!
# Address families and address blocks

* `Family` : IPv4 or IPv6, with the width of its addresses (`Family.bits`);
* `Cidr` : an address with a length; the address may have host bits set;
* `Cidr.size`, `Cidr.first` : the block as an interval of addresses, aligned to its size
  (`Cidr.size_pos`, `Cidr.first_le_address`, `Cidr.address_lt_end`, `Cidr.first_lt`,
  `Cidr.last_lt`);
* `Cidr.masked` : the same block named by its first address (`Cidr.first_masked`,
  `Cidr.masked_masked`);
* `Cidr.covers`, `Cidr.overlaps` : tests on addresses of one family; a block covers exactly the
  addresses of its interval (`Cidr.covers_iff`).
-/

namespace HostSubnets

inductive Family where
  | v4
  | v6
deriving DecidableEq, Repr

namespace Family

def bits : Family → Nat
  | .v4 => 32
  | .v6 => 128

def name : Family → String
  | .v4 => "ipv4"
  | .v6 => "ipv6"

theorem bits_le (f : Family) : f.bits ≤ 128 := by cases f <;> decide

end Family

/-- An address and the length of the block it names. -/
structure Cidr where
  family : Family
  address : Nat
  length : Nat
  address_lt : address < 2 ^ family.bits
  length_le : length ≤ family.bits
deriving DecidableEq, Repr

namespace Cidr

def of? (family : Family) (address length : Nat) : Option Cidr :=
  if h : address < 2 ^ family.bits ∧ length ≤ family.bits then
    some { family, address, length, address_lt := h.1, length_le := h.2 }
  else none

def size (c : Cidr) : Nat := 2 ^ (c.family.bits - c.length)

/-- The first address of the block, all host bits clear. -/
def first (c : Cidr) : Nat := c.address / c.size * c.size

theorem size_pos (c : Cidr) : 0 < c.size := Nat.two_pow_pos _

theorem first_le_address (c : Cidr) : c.first ≤ c.address := Nat.div_mul_le_self _ _

theorem first_lt (c : Cidr) : c.first < 2 ^ c.family.bits :=
  Nat.lt_of_le_of_lt c.first_le_address c.address_lt

theorem address_lt_end (c : Cidr) : c.address < c.first + c.size := by
  have := Nat.lt_div_mul_add (a := c.address) c.size_pos
  simpa [first] using this

theorem last_lt (c : Cidr) : c.first + c.size ≤ 2 ^ c.family.bits := by
  have split : 2 ^ c.family.bits = 2 ^ c.length * c.size := by
    rw [size, ← Nat.pow_add, Nat.add_sub_cancel' c.length_le]
  have row : c.address / c.size < 2 ^ c.length :=
    Nat.div_lt_of_lt_mul (by rw [Nat.mul_comm, ← split]; exact c.address_lt)
  rw [first, split, ← Nat.succ_mul]
  exact Nat.mul_le_mul_right _ row

/-- The same block, named by its first address. -/
def masked (c : Cidr) : Cidr := { c with address := c.first, address_lt := c.first_lt }

theorem size_masked (c : Cidr) : c.masked.size = c.size := rfl

theorem first_masked (c : Cidr) : c.masked.first = c.first := by
  show c.first / c.size * c.size = c.first
  rw [first, Nat.mul_div_cancel _ c.size_pos]

theorem masked_masked (c : Cidr) : c.masked.masked = c.masked := by
  simp only [masked, mk.injEq, true_and]
  exact ⟨first_masked c, trivial⟩

def covers (c : Cidr) (address : Nat) : Bool := address / c.size == c.address / c.size

theorem covers_iff (c : Cidr) (a : Nat) :
    c.covers a = true ↔ c.first ≤ a ∧ a < c.first + c.size := by
  rw [covers, beq_iff_eq, first, Nat.div_eq_iff c.size_pos]
  generalize c.address / c.size = q
  have := c.size_pos
  omega

/-- Whether two blocks share an address: blocks are aligned to their sizes, so one of them then
holds the first address of the other. -/
def overlaps (c d : Cidr) : Bool :=
  c.family == d.family && (c.covers d.first || d.covers c.first)

end Cidr

end HostSubnets
