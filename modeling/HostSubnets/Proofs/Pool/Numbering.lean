import HostSubnets.Pool.Block
import HostSubnets.Proofs.Cidr.Sharing
import HostSubnets.Proofs.SortedMap

/-!
# Numbers of host subnets

The numbers below `Block.count` and the host subnets of a range are the same thing: `index?_hostSubnet` and
`eq_hostSubnet_of_index?` say that `index?` and `hostSubnet` are inverse. Host subnets of different numbers have
no address in common (`not_meets_hostSubnet`), and all lie in the range (`covers_of_covers_hostSubnet`).
-/

namespace HostSubnets.Block

/-! ## Ranges -/

/-- A network makes a range if the length of the host subnets is in the bounds, and that range has no reservations. -/
theorem of_eq_ok_iff {network : Cidr} {hostLength : Nat} {b : Block} :
    Block.of network hostLength = .ok b ↔ network.length ≤ hostLength ∧ hostLength ≤ network.family.bits ∧
      b.network = network.masked ∧ b.hostLength = hostLength ∧ b.used = .empty := by
  unfold Block.of
  split
  · rename_i hbounds
    simp only [hbounds.1, hbounds.2, true_and]
    constructor
    · intro h
      obtain rfl := Except.ok.inj h
      exact ⟨rfl, rfl, rfl⟩
    · obtain ⟨network', hostLength', used, _, _, _⟩ := b
      rintro ⟨rfl, rfl, rfl⟩
      rfl
  · rename_i hbounds
    simp only [reduceCtorEq, false_iff]
    exact fun h => hbounds ⟨h.1, h.2.1⟩

/-! ## One host subnet -/

theorem size_hostSubnet (b : Block) {i : Nat} (h : i < b.count) : (b.hostSubnet i h).size = b.hostSize :=
  rfl

theorem hostSize_dvd_address (b : Block) : b.hostSize ∣ b.network.address := by
  rw [← b.aligned]
  exact dvd_trans (Dvd.intro_left _ b.count_mul_hostSize) b.network.size_dvd_first

theorem first_hostSubnet (b : Block) {i : Nat} (h : i < b.count) :
    (b.hostSubnet i h).first = (b.hostSubnet i h).address := by
  unfold Cidr.first
  rw [size_hostSubnet]
  exact Nat.div_mul_cancel (Nat.dvd_add b.hostSize_dvd_address (Dvd.intro_left i rfl))

theorem covers_hostSubnet_iff (b : Block) {i : Nat} (h : i < b.count) (a : Nat) :
    (b.hostSubnet i h).covers a = true ↔
      b.network.address + i * b.hostSize ≤ a ∧ a < b.network.address + (i + 1) * b.hostSize := by
  rw [Cidr.covers_iff, first_hostSubnet, size_hostSubnet]
  show b.network.address + i * b.hostSize ≤ a ∧ a < b.network.address + i * b.hostSize + b.hostSize ↔ _
  rw [Nat.succ_mul, Nat.add_assoc]

theorem covers_network_iff (b : Block) (a : Nat) :
    b.network.covers a = true ↔
      b.network.address ≤ a ∧ a < b.network.address + b.count * b.hostSize := by
  rw [Cidr.covers_iff, b.aligned, b.count_mul_hostSize]

theorem covers_of_covers_hostSubnet (b : Block) {i : Nat} (h : i < b.count) {a : Nat}
    (ha : (b.hostSubnet i h).covers a = true) : b.network.covers a = true := by
  rw [covers_hostSubnet_iff] at ha
  rw [covers_network_iff]
  have hle : (i + 1) * b.hostSize ≤ b.count * b.hostSize := Nat.mul_le_mul_right _ h
  omega

/-- Every address of the range lies in a host subnet. -/
theorem exists_covers_hostSubnet (b : Block) {a : Nat} (ha : b.network.covers a = true) :
    ∃ i, ∃ h : i < b.count, (b.hostSubnet i h).covers a = true := by
  obtain ⟨hlow, hhigh⟩ := (b.covers_network_iff a).1 ha
  have hlt : (a - b.network.address) / b.hostSize < b.count := by
    rw [Nat.div_lt_iff_lt_mul b.hostSize_pos]
    omega
  have hfloor := Nat.div_mul_le_self (a - b.network.address) b.hostSize
  have hceil := Nat.lt_div_mul_add (a := a - b.network.address) b.hostSize_pos
  refine ⟨_, hlt, (b.covers_hostSubnet_iff hlt a).2 ?_⟩
  rw [Nat.succ_mul]
  omega

theorem not_meets_hostSubnet (b : Block) {i j : Nat} (hi : i < b.count) (hj : j < b.count)
    (hne : i ≠ j) : ¬ (b.hostSubnet i hi).Meets (b.hostSubnet j hj) := by
  rintro ⟨-, a, hai, haj⟩
  rw [covers_hostSubnet_iff] at hai haj
  rcases Nat.lt_or_gt_of_ne hne with hlt | hlt
  · have hle : (i + 1) * b.hostSize ≤ j * b.hostSize := Nat.mul_le_mul_right _ hlt
    omega
  · have hle : (j + 1) * b.hostSize ≤ i * b.hostSize := Nat.mul_le_mul_right _ hlt
    omega

theorem address_hostSubnet_lt_iff (b : Block) {i j : Nat} (hi : i < b.count) (hj : j < b.count) :
    (b.hostSubnet i hi).address < (b.hostSubnet j hj).address ↔ i < j := by
  show b.network.address + i * b.hostSize < b.network.address + j * b.hostSize ↔ i < j
  rw [Nat.add_lt_add_iff_left, Nat.mul_lt_mul_right b.hostSize_pos]

/-! ## Subnets and their numbers -/

theorem index?_hostSubnet (b : Block) {i : Nat} (h : i < b.count) :
    b.index? (b.hostSubnet i h) = some i := by
  have hcov : b.network.covers (b.hostSubnet i h).address = true :=
    b.covers_of_covers_hostSubnet h (Cidr.covers_address _)
  rw [index?, if_pos ⟨rfl, rfl, (b.first_hostSubnet h).symm, hcov⟩]
  show some ((b.network.address + i * b.hostSize - b.network.address) / b.hostSize) = some i
  rw [Nat.add_sub_cancel_left, Nat.mul_div_cancel _ b.hostSize_pos]

theorem eq_hostSubnet_of_index? {b : Block} {s : Cidr} {i : Nat} (h : b.index? s = some i) :
    ∃ hi : i < b.count, s = b.hostSubnet i hi := by
  unfold index? at h
  split at h
  · rename_i hs
    obtain ⟨hfam, hlen, hfirst, hcov⟩ := hs
    obtain ⟨hlow, hhigh⟩ := (b.covers_network_iff _).1 hcov
    have hsize : s.size = b.hostSize := by rw [Cidr.size, hostSize, hfam, hlen]
    obtain ⟨k, hk⟩ : b.hostSize ∣ s.address - b.network.address := by
      refine Nat.dvd_sub ?_ b.hostSize_dvd_address
      rw [hfirst, ← hsize]
      exact s.size_dvd_first
    have hi : k = i := by
      rw [hk, Nat.mul_div_cancel_left _ b.hostSize_pos] at h
      exact Option.some.inj h
    subst hi
    have haddr : s.address = b.network.address + k * b.hostSize := by
      rw [Nat.mul_comm k, ← hk]
      omega
    have hlt : k < b.count := by
      refine Nat.lt_of_mul_lt_mul_right (a := b.hostSize) ?_
      omega
    refine ⟨hlt, ?_⟩
    obtain ⟨family, address, length, _, _⟩ := s
    simp only at hfam hlen haddr
    subst hfam hlen haddr
    rfl
  · cases h

theorem index?_eq_some_iff (b : Block) (s : Cidr) (i : Nat) :
    b.index? s = some i ↔ ∃ hi : i < b.count, s = b.hostSubnet i hi := by
  constructor
  · exact eq_hostSubnet_of_index?
  · rintro ⟨hi, rfl⟩
    exact b.index?_hostSubnet hi

theorem eq_of_index? {b : Block} {s t : Cidr} {i : Nat} (hs : b.index? s = some i)
    (ht : b.index? t = some i) : s = t := by
  obtain ⟨_, rfl⟩ := eq_hostSubnet_of_index? hs
  obtain ⟨_, rfl⟩ := eq_hostSubnet_of_index? ht
  rfl

theorem family_of_index? {b : Block} {s : Cidr} {i : Nat} (h : b.index? s = some i) :
    s.family = b.network.family := by
  obtain ⟨_, rfl⟩ := eq_hostSubnet_of_index? h
  rfl

theorem covers_of_index? {b : Block} {s : Cidr} {i a : Nat} (h : b.index? s = some i)
    (ha : s.covers a = true) : b.network.covers a = true := by
  obtain ⟨hi, rfl⟩ := eq_hostSubnet_of_index? h
  exact b.covers_of_covers_hostSubnet hi ha

/-- Of two ranges without a common address only one has a given host subnet. -/
theorem meets_of_index? {b c : Block} {s t : Cidr} {i j : Nat} (hb : b.index? s = some i)
    (hc : c.index? t = some j) (h : s.Meets t) : b.network.Meets c.network := by
  obtain ⟨hf, a, hs, ht⟩ := h
  rw [family_of_index? hb, family_of_index? hc] at hf
  exact ⟨hf, a, covers_of_index? hb hs, covers_of_index? hc ht⟩

/-! ## Free numbers -/

theorem le_gap (c : Nat) (l : List Nat) : c ≤ gap c l := by
  induction l generalizing c with
  | nil => exact Nat.le_refl _
  | cons i rest ih =>
    unfold gap
    split
    · exact Nat.le_trans (Nat.le_succ c) (ih (c + 1))
    · exact Nat.le_refl _

theorem gap_not_mem {c : Nat} {l : List Nat} (hs : l.Pairwise (· < ·)) (hc : ∀ i ∈ l, c ≤ i) :
    gap c l ∉ l := by
  induction l generalizing c with
  | nil => simp
  | cons i rest ih =>
    obtain ⟨hlow, hrest⟩ := List.pairwise_cons.1 hs
    unfold gap
    split
    · rename_i hi
      subst hi
      have hge := le_gap (i + 1) rest
      rw [List.mem_cons, not_or]
      exact ⟨by omega, ih hrest hlow⟩
    · rename_i hi
      have hci := hc i List.mem_cons_self
      rw [List.mem_cons, not_or]
      refine ⟨fun h => hi h.symm, fun h => ?_⟩
      have := hlow _ h
      omega

theorem owner?_gap (b : Block) : b.owner? (gap 0 b.used.keys) = none := by
  have hs : b.used.keys.Pairwise (· < ·) := by
    rw [SortedMap.keys, List.pairwise_map]
    exact b.used.sorted
  rw [Option.eq_none_iff_forall_ne_some]
  exact fun o ho => gap_not_mem hs (fun j _ => Nat.zero_le j) (SortedMap.mem_keys.2 ⟨o, ho⟩)

theorem owner?_lowestFree {b : Block} {i : Nat} {h : i < b.count} (hf : b.lowestFree = some ⟨i, h⟩) :
    b.owner? i = none := by
  unfold lowestFree at hf
  simp only at hf
  split at hf
  · simp only [Option.some.injEq, Subtype.mk.injEq] at hf
    exact hf ▸ b.owner?_gap
  · cases hf

end HostSubnets.Block
