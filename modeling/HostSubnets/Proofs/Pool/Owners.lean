import HostSubnets.Pool.Request
import HostSubnets.Proofs.Pool.Numbering

/-!
# Who holds a subnet

`Pool.owner?` reads the reservations of the ranges as one table from subnets to owners. A reservation and its
release are both one assignment in that table (`ownerIn_assign`), made at the place that `locate` finds, and
neither moves a place (`locate_assign`).
-/

namespace HostSubnets

/-! ## One range -/

namespace Block

def assign (b : Block) (i : Nat) : Option String → Block
  | some owner => b.reserve i owner
  | none => b.free i

theorem owner?_assign (b : Block) (i j : Nat) (o : Option String) :
    (b.assign i o).owner? j = if j = i then o else b.owner? j := by
  cases o with
  | some owner => exact SortedMap.find?_insert b.used i owner j
  | none => exact SortedMap.find?_erase b.used i j

theorem network_assign (b : Block) (i : Nat) (o : Option String) : (b.assign i o).network = b.network := by
  cases o <;> rfl

theorem count_assign (b : Block) (i : Nat) (o : Option String) : (b.assign i o).count = b.count := by
  cases o <;> rfl

theorem index?_assign (b : Block) (i : Nat) (o : Option String) : (b.assign i o).index? = b.index? := by
  cases o <;> rfl

end Block

/-! ## All ranges -/

namespace Pool

/-- The owner that ranges record for a subnet. -/
def ownerIn (s : Cidr) (blocks : List Block) : Option String := (locate s blocks).bind (ownerAt blocks)

def assign (place : Nat × Nat) (o : Option String) (blocks : List Block) : List Block :=
  blocks.modify place.1 (·.assign place.2 o)

theorem locate_cons_some {s : Cidr} {b : Block} {i : Nat} (h : b.index? s = some i) (rest : List Block) :
    locate s (b :: rest) = some (0, i) := by
  rw [locate, h]

theorem locate_cons_none {s : Cidr} {b : Block} (h : b.index? s = none) (rest : List Block) :
    locate s (b :: rest) = (locate s rest).map fun (position, index) => (position + 1, index) := by
  rw [locate, h]

theorem ownerIn_nil (s : Cidr) : ownerIn s [] = none := rfl

theorem ownerIn_cons_some {s : Cidr} {b : Block} {i : Nat} (h : b.index? s = some i)
    (rest : List Block) : ownerIn s (b :: rest) = b.owner? i := by
  rw [ownerIn, locate_cons_some h]
  rfl

theorem ownerIn_cons_none {s : Cidr} {b : Block} (h : b.index? s = none) (rest : List Block) :
    ownerIn s (b :: rest) = ownerIn s rest := by
  rw [ownerIn, ownerIn, locate_cons_none h]
  cases locate s rest <;> rfl

theorem assign_zero (i : Nat) (o : Option String) (b : Block) (rest : List Block) :
    assign (0, i) o (b :: rest) = b.assign i o :: rest := rfl

theorem assign_succ (k i : Nat) (o : Option String) (b : Block) (rest : List Block) :
    assign (k + 1, i) o (b :: rest) = b :: assign (k, i) o rest := rfl

/-- The range at a located place has the subnet under the located number, and an assignment there changes no other. -/
theorem exists_split_of_locate {s : Cidr} {blocks : List Block} {place : Nat × Nat} (h : locate s blocks = some place) :
    ∃ before b after, blocks = before ++ b :: after ∧ b.index? s = some place.2 ∧
      ∀ o, assign place o blocks = before ++ b.assign place.2 o :: after := by
  induction blocks generalizing place with
  | nil => cases h
  | cons b rest ih =>
    cases hb : b.index? s with
    | some i =>
      rw [locate_cons_some hb] at h
      obtain rfl := Option.some.inj h
      exact ⟨[], b, rest, rfl, hb, fun o => rfl⟩
    | none =>
      rw [locate_cons_none hb] at h
      obtain ⟨⟨k, i⟩, hp, rfl⟩ := Option.map_eq_some_iff.1 h
      obtain ⟨before, c, after, hsplit, hc, hassign⟩ := ih hp
      refine ⟨b :: before, c, after, by rw [hsplit]; rfl, hc, fun o => ?_⟩
      rw [assign_succ, hassign]
      rfl

theorem exists_of_locate {s : Cidr} {blocks : List Block} {place : Nat × Nat}
    (h : locate s blocks = some place) : ∃ b ∈ blocks, b.index? s = some place.2 := by
  obtain ⟨before, b, after, rfl, hb, -⟩ := exists_split_of_locate h
  exact ⟨b, List.mem_append_right _ List.mem_cons_self, hb⟩

theorem locate_isSome_iff {s : Cidr} {blocks : List Block} :
    (locate s blocks).isSome = true ↔ ∃ b ∈ blocks, ∃ i, b.index? s = some i := by
  induction blocks with
  | nil => simp [locate]
  | cons b rest ih =>
    cases hb : b.index? s with
    | some i => simp [locate_cons_some hb, hb]
    | none => simp [locate_cons_none hb, hb, ih]

theorem locate_assign (s : Cidr) (place : Nat × Nat) (o : Option String) (blocks : List Block) :
    locate s (assign place o blocks) = locate s blocks := by
  obtain ⟨k, i⟩ := place
  induction blocks generalizing k with
  | nil => cases k <;> rfl
  | cons b rest ih =>
    cases k with
    | zero =>
      rw [assign_zero]
      simp only [locate, Block.index?_assign]
    | succ k =>
      rw [assign_succ]
      simp only [locate, ih]

theorem map_assign {α : Type} {g : Block → α} (hg : ∀ b i o, g (Block.assign b i o) = g b) (place : Nat × Nat)
    (o : Option String) (blocks : List Block) : (assign place o blocks).map g = blocks.map g := by
  obtain ⟨k, i⟩ := place
  induction blocks generalizing k with
  | nil => cases k <;> rfl
  | cons b rest ih =>
    cases k with
    | zero => rw [assign_zero, List.map_cons, List.map_cons, hg]
    | succ k => rw [assign_succ, List.map_cons, List.map_cons, ih]

/-- An assignment at the place of a subnet changes the owner of that subnet alone. -/
theorem ownerIn_assign {s : Cidr} {blocks : List Block} {place : Nat × Nat}
    (h : locate s blocks = some place) (o : Option String) (t : Cidr) :
    ownerIn t (assign place o blocks) = if t = s then o else ownerIn t blocks := by
  induction blocks generalizing place with
  | nil => cases h
  | cons b rest ih =>
    cases hb : b.index? s with
    | some i =>
      rw [locate_cons_some hb] at h
      obtain rfl := Option.some.inj h
      have hassign : (b.assign i o).index? t = b.index? t := by rw [Block.index?_assign]
      rw [assign_zero]
      cases ht : b.index? t with
      | some j =>
        rw [ownerIn_cons_some (hassign.trans ht), ownerIn_cons_some ht, Block.owner?_assign]
        by_cases hts : t = s
        · subst hts
          obtain rfl : i = j := Option.some.inj (hb.symm.trans ht)
          rw [if_pos rfl, if_pos rfl]
        · have hji : j ≠ i := fun hji => hts (Block.eq_of_index? ht (hji ▸ hb))
          rw [if_neg hji, if_neg hts]
      | none =>
        have hts : t ≠ s := by
          rintro rfl
          rw [ht] at hb
          cases hb
        rw [ownerIn_cons_none (hassign.trans ht), ownerIn_cons_none ht, if_neg hts]
    | none =>
      rw [locate_cons_none hb] at h
      obtain ⟨⟨k, i⟩, hp, rfl⟩ := Option.map_eq_some_iff.1 h
      rw [assign_succ]
      cases ht : b.index? t with
      | some j =>
        have hts : t ≠ s := by
          rintro rfl
          rw [ht] at hb
          cases hb
        rw [ownerIn_cons_some ht, ownerIn_cons_some ht, if_neg hts]
      | none => rw [ownerIn_cons_none ht, ownerIn_cons_none ht, ih hp]

/-- Whether a registered range is divided into a subnet, among others. -/
def Hosts (p : Pool) (s : Cidr) : Prop := (locate s p.blocks).isSome = true

instance (p : Pool) (s : Cidr) : Decidable (p.Hosts s) :=
  inferInstanceAs (Decidable ((locate s p.blocks).isSome = true))

theorem exists_hosts_covers_iff {p : Pool} {f : Family} {a : Nat} :
    (∃ t, p.Hosts t ∧ t.family = f ∧ t.covers a = true) ↔
      ∃ b ∈ p.blocks, b.network.family = f ∧ b.network.covers a = true := by
  constructor
  · rintro ⟨t, hhosts, hfamily, hcovers⟩
    obtain ⟨b, hb, i, hi⟩ := locate_isSome_iff.1 hhosts
    exact ⟨b, hb, (Block.family_of_index? hi).symm.trans hfamily, Block.covers_of_index? hi hcovers⟩
  · rintro ⟨b, hb, hfamily, hcovers⟩
    obtain ⟨i, hi, ha⟩ := b.exists_covers_hostSubnet hcovers
    exact ⟨b.hostSubnet i hi, locate_isSome_iff.2 ⟨b, hb, i, b.index?_hostSubnet hi⟩, hfamily, ha⟩

def owner? (p : Pool) (s : Cidr) : Option String := ownerIn s p.blocks

theorem hosts_of_owner? {p : Pool} {s : Cidr} {o : String} (h : p.owner? s = some o) : p.Hosts s := by
  unfold owner? ownerIn at h
  obtain ⟨place, hp, -⟩ := Option.bind_eq_some_iff.1 h
  unfold Hosts
  rw [hp]
  rfl

end Pool

end HostSubnets
