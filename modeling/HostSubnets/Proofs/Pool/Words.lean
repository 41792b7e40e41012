import HostSubnets.Proofs.Pool.Numbering

/-!
# Host subnets in words of 128 bits

A number is turned into the first address of its host subnet by a shift and a sum, and back by a difference and a
shift. In words of 128 bits each of these steps is exact (`Lossless`), for ranges and host subnets of all lengths:
`numbering_exact`, which also says that numbers and the aligned subnets of a range are the same thing.
-/

namespace HostSubnets

abbrev Word := BitVec 128

def Cidr.word (c : Cidr) : Word := BitVec.ofNat 128 c.address

theorem Cidr.toNat_word (c : Cidr) : c.word.toNat = c.address := by
  have hbits : 2 ^ c.family.bits ≤ 2 ^ 128 := Nat.pow_le_pow_right (by decide) c.family.bits_le
  rw [word, BitVec.toNat_ofNat, Nat.mod_eq_of_lt (Nat.lt_of_lt_of_le c.address_lt hbits)]

namespace Block

/-- How far a number stands above the low bits of an address. -/
def hostBits (b : Block) : Nat := b.network.family.bits - b.hostLength

/-- The first address of the host subnet of a number. Nothing is left of a word that is shifted by all its bits. -/
def addressWord (b : Block) (i : Word) : Word := b.network.word + i <<< b.hostBits

def address (b : Block) (i : Word) : BitVec b.network.family.bits := (b.addressWord i).setWidth _

def indexWord (b : Block) (s : Cidr) : Word := (s.word - b.network.word) >>> b.hostBits

/-- How many host subnets there are, or the largest word if none is so large. -/
def capacityWord (b : Block) : Word :=
  if b.hostLength - b.network.length < 128 then 1#128 <<< (b.hostLength - b.network.length) else BitVec.allOnes 128

/-- A number and its host subnet, each computed from the other without a loss. -/
structure Lossless (b : Block) (i : Word) (s : Cidr) : Prop where
  shift : (i <<< b.hostBits) >>> b.hostBits = i
  add : BitVec.uaddOverflow b.network.word (i <<< b.hostBits) = false
  narrow : (b.address i).setWidth 128 = b.addressWord i
  address : (b.address i).toNat = s.address
  sub : BitVec.usubOverflow s.word b.network.word = false
  shiftBack : b.indexWord s <<< b.hostBits = s.word - b.network.word
  index : b.indexWord s = i

variable {b : Block} {i : Word}

theorem count_le (b : Block) : b.count ≤ 2 ^ 128 := by
  have hbits := b.network.family.bits_le
  have hlength := b.hostLength_le
  exact Nat.pow_le_pow_right (by decide) (by omega)

theorem toNat_capacityWord (b : Block) : b.capacityWord.toNat = b.capacity := by
  unfold capacityWord capacity count maxCapacity
  split
  · rename_i hlt
    have hpow : 2 ^ (b.hostLength - b.network.length) < 2 ^ 128 := Nat.pow_lt_pow_right (by decide) hlt
    rw [BitVec.toNat_shiftLeft, BitVec.toNat_ofNat, Nat.shiftLeft_eq, Nat.mod_eq_of_lt (by decide : 1 < 2 ^ 128),
      Nat.one_mul, Nat.mod_eq_of_lt hpow]
    omega
  · rename_i hge
    have hpow : 2 ^ 128 ≤ 2 ^ (b.hostLength - b.network.length) := Nat.pow_le_pow_right (by decide) (by omega)
    rw [BitVec.toNat_allOnes]
    omega

theorem toNat_shiftLeft (hi : i.toNat < b.count) : (i <<< b.hostBits).toNat = i.toNat * b.hostSize := by
  have hsize : b.network.size ≤ 2 ^ 128 :=
    Nat.pow_le_pow_right (by decide) (Nat.le_trans (Nat.sub_le _ _) b.network.family.bits_le)
  have hlt : i.toNat * b.hostSize < b.count * b.hostSize := Nat.mul_lt_mul_of_pos_right hi b.hostSize_pos
  rw [b.count_mul_hostSize] at hlt
  rw [BitVec.toNat_shiftLeft, Nat.shiftLeft_eq]
  exact Nat.mod_eq_of_lt (Nat.lt_of_lt_of_le hlt hsize)

/-- **Both ways between a number and its host subnet are exact.** -/
theorem lossless_hostSubnet (hi : i.toNat < b.count) : b.Lossless i (b.hostSubnet i.toNat hi) := by
  have hshift := toNat_shiftLeft hi
  have hbase := b.network.toNat_word
  have hlt := b.subnet_lt hi
  have hbits : 2 ^ b.network.family.bits ≤ 2 ^ 128 := Nat.pow_le_pow_right (by decide) b.network.family.bits_le
  have hword : (b.hostSubnet i.toNat hi).word.toNat = b.network.address + i.toNat * b.hostSize :=
    (b.hostSubnet i.toNat hi).toNat_word
  have hadd : BitVec.uaddOverflow b.network.word (i <<< b.hostBits) = false := by
    rw [BitVec.uaddOverflow, decide_eq_false_iff_not, hbase, hshift]
    omega
  have hsum : (b.addressWord i).toNat = b.network.address + i.toNat * b.hostSize := by
    rw [addressWord, BitVec.toNat_add_of_not_uaddOverflow (by simp [hadd]), hbase, hshift]
  have hnarrow : (b.address i).toNat = b.network.address + i.toNat * b.hostSize := by
    rw [address, BitVec.toNat_setWidth, hsum, Nat.mod_eq_of_lt hlt]
  have hsub : BitVec.usubOverflow (b.hostSubnet i.toNat hi).word b.network.word = false := by
    rw [BitVec.usubOverflow, decide_eq_false_iff_not, hbase, hword]
    omega
  have hdifference : (b.hostSubnet i.toNat hi).word - b.network.word = i <<< b.hostBits := by
    refine BitVec.eq_of_toNat_eq ?_
    rw [BitVec.toNat_sub_of_not_usubOverflow (by simp [hsub]), hword, hbase, hshift, Nat.add_sub_cancel_left]
  have hback : (i <<< b.hostBits) >>> b.hostBits = i := by
    refine BitVec.eq_of_toNat_eq ?_
    rw [BitVec.toNat_ushiftRight, Nat.shiftRight_eq_div_pow, hshift]
    exact Nat.mul_div_cancel _ b.hostSize_pos
  have hindex : b.indexWord (b.hostSubnet i.toNat hi) = i := by rw [indexWord, hdifference, hback]
  refine ⟨hback, hadd, BitVec.eq_of_toNat_eq ?_, hnarrow, hsub, by rw [hindex, hdifference], hindex⟩
  rw [BitVec.toNat_setWidth, hnarrow, hsum, Nat.mod_eq_of_lt (Nat.lt_of_lt_of_le hlt hbits)]

/-! ## Numbers and subnets -/

section Of

variable {network s : Cidr} {hostLength : Nat} (h : Block.of network hostLength = .ok b)
include h

theorem exists_hostSubnet_eq_iff :
    (∃ i, ∃ hi : i < b.count, b.hostSubnet i hi = s) ↔
      s.family = network.family ∧ s.length = hostLength ∧ s.first = s.address ∧
        ∀ a, s.covers a = true → network.covers a = true := by
  obtain ⟨hlow, -, hnetwork, rfl, -⟩ := of_eq_ok_iff.1 h
  have hfamily : b.network.family = network.family := by rw [hnetwork]; rfl
  have hcovers : ∀ a, b.network.covers a = network.covers a := by
    rw [hnetwork]
    exact Cidr.covers_masked network
  constructor
  · rintro ⟨i, hi, rfl⟩
    exact ⟨hfamily, rfl, b.first_hostSubnet hi, fun a ha => hcovers a ▸ b.covers_of_covers_hostSubnet hi ha⟩
  · rintro ⟨hsfamily, hlength, haligned, hinside⟩
    have hin : b.network.covers s.address = true := (hcovers _).trans (hinside _ s.covers_address)
    have hindex : b.index? s = some ((s.address - b.network.address) / b.hostSize) :=
      if_pos ⟨hsfamily.trans hfamily.symm, hlength, haligned.symm, hin⟩
    obtain ⟨hi, hs⟩ := eq_hostSubnet_of_index? hindex
    exact ⟨_, hi, hs.symm⟩

theorem index?_eq_none_iff :
    b.index? s = none ↔ s.family ≠ network.family ∨ s.length ≠ hostLength ∨ s.first ≠ s.address ∨
      ∀ a, s.covers a = true → network.covers a = false := by
  obtain ⟨hlow, -, hnetwork, rfl, -⟩ := of_eq_ok_iff.1 h
  have hfamily : b.network.family = network.family := by rw [hnetwork]; rfl
  have hnumber : b.index? s = none ↔ ¬ ∃ i, ∃ hi : i < b.count, b.hostSubnet i hi = s := by
    rw [Option.eq_none_iff_forall_ne_some, ← not_exists]
    simp only [index?_eq_some_iff, eq_comm (a := s)]
  rw [hnumber, exists_hostSubnet_eq_iff h]
  constructor
  · intro hnot
    by_cases hs : s.family = network.family ∧ s.length = b.hostLength ∧ s.first = s.address
    · obtain ⟨hsfamily, hlength, haligned⟩ := hs
      have hsize : s.size ∣ network.size := Cidr.size_dvd_size hsfamily (hlength ▸ hlow)
      refine Or.inr (Or.inr (Or.inr fun a ha => Bool.eq_false_iff.2 fun hshared => ?_))
      -- Whoever shares an address with the network lies in it.
      have hfirst := Cidr.covers_first_of_covers hsize ha hshared
      rw [haligned] at hfirst
      exact hnot ⟨hsfamily, hlength, haligned, fun _ => Cidr.covers_of_covers_address hsize hfirst⟩
    · tauto
  · rintro hreason ⟨hsfamily, hlength, haligned, hinside⟩
    rcases hreason with hne | hne | hne | houtside
    · exact hne hsfamily
    · exact hne hlength
    · exact hne haligned
    · have hcontra := houtside s.address s.covers_address
      rw [hinside s.address s.covers_address] at hcontra
      cases hcontra

end Of

/-- **Numbers and host subnets are the same thing, and words of 128 bits can tell.** A range has as many numbers as
aligned subnets of the length lie in its network. They follow each other as the addresses do, a subnet has the number
that it is the subnet of, and it has none if it is of the other family or of another length, has host bits, or lies
outside. The lengths and all sums, differences and shifts on the way stay within their words. -/
theorem numbering_exact {network : Cidr} {hostLength : Nat} (h : Block.of network hostLength = .ok b) :
    b.count = 2 ^ (hostLength - network.length) ∧
      (∀ s, (∃ i, ∃ hi : i < b.count, b.hostSubnet i hi = s) ↔
        s.family = network.family ∧ s.length = hostLength ∧ s.first = s.address ∧
          ∀ a, s.covers a = true → network.covers a = true) ∧
      (∀ i j hi hj, (b.hostSubnet i hi).address < (b.hostSubnet j hj).address ↔ i < j) ∧
      (∀ i hi, b.index? (b.hostSubnet i hi) = some i) ∧
      (∀ s i, b.index? s = some i → ∃ hi : i < b.count, b.hostSubnet i hi = s) ∧
      (∀ s, b.index? s = none ↔ s.family ≠ network.family ∨ s.length ≠ hostLength ∨ s.first ≠ s.address ∨
        ∀ a, s.covers a = true → network.covers a = false) ∧
      (network.length ≤ hostLength ∧ hostLength ≤ network.family.bits ∧ b.count ≤ 2 ^ 128 ∧
        b.capacityWord.toNat = b.capacity) ∧
      ∀ (i : Word) (hi : i.toNat < b.count), b.Lossless i (b.hostSubnet i.toNat hi) := by
  obtain ⟨hlow, hhigh, hnetwork, rfl, -⟩ := of_eq_ok_iff.1 h
  have hcount : b.count = 2 ^ (b.hostLength - network.length) := by
    rw [count, hnetwork]
    rfl
  refine ⟨hcount, fun s => exists_hostSubnet_eq_iff h, fun i j hi hj => b.address_hostSubnet_lt_iff hi hj,
    fun i hi => b.index?_hostSubnet hi, fun s i hindex => ?_, fun s => index?_eq_none_iff h,
    ⟨hlow, hhigh, b.count_le, b.toNat_capacityWord⟩, fun i hi => lossless_hostSubnet hi⟩
  obtain ⟨hi, hs⟩ := eq_hostSubnet_of_index? hindex
  exact ⟨hi, hs.symm⟩

/-- All IPv6 addresses, named by one of them. -/
def everything : Cidr := ⟨.v6, 5, 0, by decide, by decide⟩

/-- They are one subnet, where words are shifted by all their bits, or 2 ^ 128 of them, of which the last one has the
largest number that there is. -/
theorem everything_numbered :
    (∃ b, Block.of everything 0 = .ok b ∧ b.hostBits = 128 ∧ b.count = 1 ∧
      ∃ hi, b.Lossless 0#128 (b.hostSubnet 0 hi)) ∧
    ∃ b, Block.of everything 128 = .ok b ∧ b.count = 2 ^ 128 ∧
      ∃ hi, b.Lossless (BitVec.allOnes 128) (b.hostSubnet (BitVec.allOnes 128).toNat hi) ∧
        b.index? (b.hostSubnet (BitVec.allOnes 128).toNat hi) = some (BitVec.allOnes 128).toNat := by
  obtain ⟨b, hb⟩ : ∃ b, Block.of everything 0 = .ok b := ⟨_, dif_pos (by decide)⟩
  obtain ⟨c, hc⟩ : ∃ c, Block.of everything 128 = .ok c := ⟨_, dif_pos (by decide)⟩
  obtain ⟨hcount, -, -, -, -, -, -, hlossless⟩ := numbering_exact hb
  obtain ⟨hcount', -, -, hindex, -, -, -, hlossless'⟩ := numbering_exact hc
  obtain ⟨-, -, hnetwork, hlength, -⟩ := of_eq_ok_iff.1 hb
  have hbits : b.hostBits = 128 := by
    rw [hostBits, hnetwork, hlength]
    rfl
  have hone : b.count = 1 := hcount
  have hzero : (0#128).toNat < b.count := by
    rw [hone]
    decide
  have hlast : (BitVec.allOnes 128).toNat < c.count := by
    rw [hcount', BitVec.toNat_allOnes]
    decide
  exact ⟨⟨b, hb, hbits, hone, hzero, hlossless 0#128 hzero⟩,
    ⟨c, hc, hcount', hlast, hlossless' (BitVec.allOnes 128) hlast, hindex _ hlast⟩⟩

end Block

end HostSubnets
