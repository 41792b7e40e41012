import HostSubnets.Proofs.Pool.Representation
import HostSubnets.Proofs.Pool.Room
import Mathlib.Data.Finset.Card
import Mathlib.Data.Fintype.Card

/-!
# What is left to allocate

`supply` : the subnets that are still to be had of a family. Allocation takes one of them (`Coherent.allocate_supply`),
a subnet given back is one of them again (`returns_release`), and together with those in use they make up the ranges
(`Coherent.card_supply_add_usage`). `allocate_exhausts` : one owner after the other gets one of them until all are
given out.
-/

namespace HostSubnets

/-! ## Subnets within reach -/

namespace Block

theorem capacity_le_count (b : Block) : b.capacity ≤ b.count := Nat.min_le_left _ _

/-- The subnets that `lowestFree` can come to: all, but for the last of 2 ^ 128. -/
def reach (b : Block) : Finset Cidr :=
  Finset.univ.image fun i : Fin b.capacity => b.hostSubnet i (Nat.lt_of_lt_of_le i.isLt b.capacity_le_count)

theorem mem_reach {b : Block} {s : Cidr} : s ∈ b.reach ↔ ∃ i < b.capacity, b.index? s = some i := by
  simp only [reach, Finset.mem_image, Finset.mem_univ, true_and, index?_eq_some_iff]
  constructor
  · rintro ⟨i, rfl⟩
    exact ⟨i, i.isLt, _, rfl⟩
  · rintro ⟨i, hi, hcount, rfl⟩
    exact ⟨⟨i, hi⟩, rfl⟩

theorem card_reach (b : Block) : b.reach.card = b.capacity := by
  rw [reach, Finset.card_image_of_injective _ fun i j hij => ?_, Finset.card_univ, Fintype.card_fin]
  have hindex := congrArg b.index? hij
  rw [index?_hostSubnet, index?_hostSubnet] at hindex
  exact Fin.ext (Option.some.inj hindex)

theorem reach_assign (b : Block) (i : Nat) (o : Option String) : (b.assign i o).reach = b.reach := by
  cases o <;> rfl

theorem reach_nonempty (b : Block) : b.reach.Nonempty := by
  rw [← Finset.card_pos, card_reach]
  exact Nat.lt_min.2 ⟨Nat.two_pow_pos _, by decide⟩

/-- The only range whose subnets 128 bits cannot count. -/
def Endless (b : Block) : Prop := b.network.length = 0 ∧ b.hostLength = 128

instance (b : Block) : Decidable b.Endless := inferInstanceAs (Decidable (_ ∧ _))

theorem capacity_eq_count {b : Block} (h : ¬ b.Endless) : b.capacity = b.count := by
  have hle : b.hostLength - b.network.length ≤ 127 := by
    have hbits : b.network.family.bits ≤ 128 := by cases b.network.family <;> decide
    have := b.hostLength_le
    unfold Endless at h
    omega
  refine Nat.min_eq_left (Nat.le_trans (Nat.pow_le_pow_right (by decide) hle) ?_)
  decide

end Block

namespace Pool

variable {p : Pool} {o : String} {s : Cidr} {f : Family}

def reach (f : Family) : List Block → Finset Cidr
  | [] => ∅
  | b :: rest => if b.network.family = f then b.reach ∪ reach f rest else reach f rest

theorem mem_reach_cons {b : Block} {rest : List Block} :
    s ∈ reach f (b :: rest) ↔ (b.network.family = f ∧ s ∈ b.reach) ∨ s ∈ reach f rest := by
  rw [reach]
  split
  · rename_i hf
    simp [hf]
  · rename_i hf
    simp [hf]

theorem mem_reach {blocks : List Block} :
    s ∈ reach f blocks ↔ ∃ b ∈ blocks, b.network.family = f ∧ s ∈ b.reach := by
  induction blocks with
  | nil => simp [reach]
  | cons b rest ih => simp [mem_reach_cons, ih]

theorem family_of_mem_reach {blocks : List Block} (h : s ∈ reach f blocks) : s.family = f := by
  obtain ⟨b, -, hf, hs⟩ := mem_reach.1 h
  obtain ⟨i, -, hi⟩ := Block.mem_reach.1 hs
  exact (Block.family_of_index? hi).trans hf

theorem reach_nonempty_iff {blocks : List Block} :
    (reach f blocks).Nonempty ↔ ∃ b ∈ blocks, b.network.family = f := by
  constructor
  · rintro ⟨s, hs⟩
    obtain ⟨b, hb, hf, -⟩ := mem_reach.1 hs
    exact ⟨b, hb, hf⟩
  · rintro ⟨b, hb, hf⟩
    obtain ⟨s, hs⟩ := b.reach_nonempty
    exact ⟨s, mem_reach.2 ⟨b, hb, hf, hs⟩⟩

theorem hosts_of_mem_reach (h : s ∈ reach f p.blocks) : p.Hosts s := by
  obtain ⟨b, hb, -, hs⟩ := mem_reach.1 h
  obtain ⟨i, -, hi⟩ := Block.mem_reach.1 hs
  exact locate_isSome_iff.2 ⟨b, hb, i, hi⟩

theorem reach_assign (f : Family) (place : Nat × Nat) (o : Option String) (blocks : List Block) :
    reach f (assign place o blocks) = reach f blocks := by
  obtain ⟨k, i⟩ := place
  induction blocks generalizing k with
  | nil => cases k <;> rfl
  | cons b rest ih =>
    cases k with
    | zero => rw [assign_zero, reach, reach, Block.network_assign, Block.reach_assign]
    | succ k => rw [assign_succ, reach, reach, ih]

def Reaches (p : Pool) (f : Family) : Prop := ∀ s, s ∈ reach f p.blocks ↔ p.Hosts s ∧ s.family = f

theorem reaches_of_ends (hends : ∀ b ∈ p.blocks, b.network.family = f → ¬ b.Endless) : p.Reaches f := by
  refine fun s => ⟨fun hs => ⟨hosts_of_mem_reach hs, family_of_mem_reach hs⟩, ?_⟩
  rintro ⟨hhosts, hf⟩
  obtain ⟨b, hb, i, hi⟩ := locate_isSome_iff.1 hhosts
  have hbf : b.network.family = f := (Block.family_of_index? hi).symm.trans hf
  obtain ⟨hcount, -⟩ := Block.eq_hostSubnet_of_index? hi
  rw [← Block.capacity_eq_count (hends b hb hbf)] at hcount
  exact mem_reach.2 ⟨b, hb, hbf, Block.mem_reach.2 ⟨i, hcount, hi⟩⟩

theorem Sound.card_reach {blocks : List Block} (h : Sound blocks) (f : Family) :
    (reach f blocks).card = ((blocks.filter fun b => b.network.family = f).map Block.capacity).sum := by
  induction blocks with
  | nil => rfl
  | cons b rest ih =>
    rw [reach, List.filter_cons]
    by_cases hf : b.network.family = f
    · have hdisjoint : Disjoint b.reach (reach f rest) := by
        rw [Finset.disjoint_left]
        intro s hs hrest
        obtain ⟨i, -, hi⟩ := Block.mem_reach.1 hs
        obtain ⟨c, hc, -, hs'⟩ := mem_reach.1 hrest
        obtain ⟨j, -, hj⟩ := Block.mem_reach.1 hs'
        exact (List.pairwise_cons.1 h.apart).1 c hc (Block.meets_of_index? hi hj s.meets_self)
      rw [if_pos hf, if_pos (by simpa using hf), Finset.card_union_of_disjoint hdisjoint, ih h.of_cons,
        Block.card_reach, List.map_cons, List.sum_cons]
    · rw [if_neg hf, if_neg (by simpa using hf), ih h.of_cons]

theorem Sound.ownerIn_eq {blocks : List Block} (h : Sound blocks) {b : Block} (hb : b ∈ blocks) {i : Nat}
    (hi : b.index? s = some i) : ownerIn s blocks = b.owner? i := by
  cases ho : b.owner? i with
  | some o => exact (h.ownerIn_eq_some_iff s o).2 ⟨b, hb, i, hi, ho⟩
  | none =>
    rw [Option.eq_none_iff_forall_ne_some]
    intro o hown
    obtain ⟨c, hc, j, hj, hcown⟩ := (h.ownerIn_eq_some_iff s o).1 hown
    by_cases hbc : b = c
    · subst hbc
      obtain rfl : i = j := Option.some.inj (hi.symm.trans hj)
      rw [ho] at hcown
      cases hcown
    · have : Std.Symm fun b c : Block => ¬ b.network.Meets c.network := ⟨fun _ _ hn hm => hn hm.symm⟩
      exact h.apart.forall hb hc hbc (Block.meets_of_index? hi hj s.meets_self)

/-! ## The supply -/

/-- The subnets of a family that are still to be had. -/
def supply (p : Pool) (f : Family) : Finset Cidr := (reach f p.blocks).filter fun s => p.owner? s = none

theorem mem_supply : s ∈ p.supply f ↔ s ∈ reach f p.blocks ∧ p.owner? s = none := Finset.mem_filter

theorem Reaches.mem_supply_iff (h : p.Reaches f) : s ∈ p.supply f ↔ p.Free s ∧ s.family = f := by
  rw [mem_supply, h s, Free, and_right_comm]

theorem Coherent.supply_eq_empty_iff (hp : p.Coherent) : p.supply f = ∅ ↔ p.Full f := by
  rw [Finset.eq_empty_iff_forall_notMem]
  constructor
  · intro hnone b hb hf
    rw [Block.lowestFree_eq_none_iff]
    intro i hi
    have hindex := b.index?_hostSubnet (Nat.lt_of_lt_of_le hi b.capacity_le_count)
    have hreach := mem_reach.2 ⟨b, hb, hf, Block.mem_reach.2 ⟨i, hi, hindex⟩⟩
    have howned := hnone (b.hostSubnet i (Nat.lt_of_lt_of_le hi b.capacity_le_count))
    rw [mem_supply, owner?, hp.sound.ownerIn_eq hb hindex] at howned
    exact Option.isSome_iff_ne_none.2 fun hfree => howned ⟨hreach, hfree⟩
  · intro hfull s hs
    obtain ⟨hreach, hfree⟩ := mem_supply.1 hs
    obtain ⟨b, hb, hf, hsb⟩ := mem_reach.1 hreach
    obtain ⟨i, hi, hindex⟩ := Block.mem_reach.1 hsb
    rw [owner?, hp.sound.ownerIn_eq hb hindex] at hfree
    have howned := Block.lowestFree_eq_none_iff.1 (hfull b hb hf) i hi
    rw [hfree] at howned
    cases howned

theorem take_mem_reach {blocks blocks' : List Block} (h : take o f blocks = some (s, blocks')) :
    s ∈ reach f blocks := by
  induction blocks generalizing blocks' with
  | nil => cases h
  | cons b rest ih =>
    rw [mem_reach_cons]
    have later : ∀ {taken}, take o f rest = some taken → taken.1 = s → s ∈ reach f rest := by
      rintro ⟨t, tail⟩ ht rfl
      exact ih ht
    unfold take at h
    split at h
    · rename_i hf
      split at h
      · rename_i i hi hlow
        obtain ⟨rfl, -⟩ := Prod.mk.inj (Option.some.inj h)
        refine Or.inl ⟨hf, Block.mem_reach.2 ⟨i, ?_, b.index?_hostSubnet hi⟩⟩
        unfold Block.lowestFree at hlow
        dsimp only at hlow
        split at hlow
        · rename_i hlt
          obtain rfl := congrArg Subtype.val (Option.some.inj hlow)
          exact hlt
        · cases hlow
      · obtain ⟨taken, ht, hs⟩ := Option.map_eq_some_iff.1 h
        exact Or.inr (later ht (congrArg Prod.fst hs))
    · obtain ⟨taken, ht, hs⟩ := Option.map_eq_some_iff.1 h
      exact Or.inr (later ht (congrArg Prod.fst hs))

theorem supply_assign {place : Nat × Nat} (hplace : locate s p.blocks = some place) (x : Option String)
    (held : SortedMap String (List Cidr)) (g : Family) :
    (⟨assign place x p.blocks, held⟩ : Pool).supply g =
      (reach g p.blocks).filter fun t => (if t = s then x else p.owner? t) = none := by
  unfold supply
  rw [reach_assign]
  refine Finset.filter_congr fun t _ => ?_
  rw [owner?, ownerIn_assign hplace]
  rfl

/-- A subnet goes from the supply to an owner. -/
structure Takes (p : Pool) (o : String) (s : Cidr) (p' : Pool) : Prop where
  allocated : ∀ x, p'.allocated x = if x = o then p.allocated o ++ [s] else p.allocated x
  reach : ∀ g, reach g p'.blocks = reach g p.blocks
  supply : ∀ g, p'.supply g = (p.supply g).erase s

/-- A subnet goes back to the supply. -/
structure Returns (p : Pool) (o : String) (s : Cidr) (p' : Pool) : Prop where
  allocated : ∀ x, p'.allocated x = if x = o then (p.allocated o).filter (· ≠ s) else p.allocated x
  reach : ∀ g, reach g p'.blocks = reach g p.blocks
  supply : ∀ g, p'.supply g = if g = s.family then insert s (p.supply g) else p.supply g

/-- **Allocation takes from the supply, as long as there is any.** -/
theorem Coherent.allocate_supply (hp : p.Coherent) (o : String) (f : Family) :
    (∃ s ∈ p.supply f, (p.allocate o f).1 = .ok (some s) ∧ p.Takes o s (p.allocate o f).2) ∨
      (p.supply f = ∅ ∧ (p.allocate o f).2 = p ∧
        (p.allocate o f).1 = if ∃ b ∈ p.blocks, b.network.family = f then .ok none else .error (.noRange f)) := by
  have hsome := allocate_some_iff o f p
  rw [← hp.supply_eq_empty_iff] at hsome
  rcases hp.allocate_cases o f with ⟨s, place, hplace, hfree, hsf, ha⟩ | ⟨hno, hsame⟩
  · have hreach : s ∈ reach f p.blocks := by
      unfold Pool.allocate at ha
      split at ha
      · cases ht : take o f p.blocks with
        | none => simp [ht] at ha
        | some taken =>
          simp only [ht] at ha
          obtain rfl : taken.1 = s := Option.some.inj (Except.ok.inj (Prod.mk.inj ha).1)
          exact take_mem_reach ht
      · simp at ha
    refine Or.inl ⟨s, mem_supply.2 ⟨hreach, hfree⟩, by rw [ha], ?_⟩
    rw [ha]
    refine ⟨fun x => allocated_hold o x s p _, fun g => reach_assign g place (some o) p.blocks, fun g => ?_⟩
    rw [supply_assign hplace]
    ext t
    rw [Finset.mem_filter, Finset.mem_erase, mem_supply]
    by_cases hts : t = s
    · simp [hts]
    · simp [hts]
  · have hempty : p.supply f = ∅ := by
      by_contra hne
      obtain ⟨s, hs⟩ := hsome.2 hne
      exact hno s hs
    refine Or.inr ⟨hempty, hsame, ?_⟩
    have hany : (p.blocks.any fun b => b.network.family == f) = true ↔ ∃ b ∈ p.blocks, b.network.family = f := by
      simp
    have htake : take o f p.blocks = none := by
      rw [take_eq_none_iff]
      exact hp.supply_eq_empty_iff.1 hempty
    unfold Pool.allocate
    simp only [hany, htake]
    split <;> rfl

/-- **A subnet within reach that is given back is to be had again.** -/
theorem returns_release (hown : p.owner? s = some o) (hreach : s ∈ Pool.reach s.family p.blocks) :
    p.Returns o s (p.release o [s]).2 := by
  unfold release attemptAll
  rcases releaseOne_cases o p s with ⟨place, hplace, -, hm⟩ | ⟨hnot, -⟩
  swap
  · exact absurd hown hnot
  rw [hm]
  refine ⟨fun x => allocated_drop o x s p _, fun g => reach_assign g place none p.blocks, fun g => ?_⟩
  show (⟨assign place none p.blocks, drop o s p.held⟩ : Pool).supply g = _
  rw [supply_assign hplace]
  ext t
  rw [Finset.mem_filter]
  by_cases hg : g = s.family
  · subst hg
    rw [if_pos rfl, Finset.mem_insert, mem_supply]
    by_cases hts : t = s
    · simp [hts, hreach]
    · simp [hts]
  · rw [if_neg hg, mem_supply]
    by_cases hts : t = s
    · subst hts
      have hnot : t ∉ Pool.reach g p.blocks := fun ht => hg (family_of_mem_reach ht).symm
      simp [hnot]
    · simp [hts]

theorem Coherent.reaches_allocate (hp : p.Coherent) (o : String) {g : Family} (h : p.Reaches g) :
    (p.allocate o f).2.Reaches g := by
  rcases hp.allocate_cases o f with ⟨t, place, -, -, -, ha⟩ | ⟨-, ha⟩ <;> rw [ha]
  · intro s
    rw [reach_assign, hosts_assign]
    exact h s
  · exact h

/-! ## Counting -/

theorem usage_get_eq (p : Pool) (f : Family) : p.usage.get f = usageOf p.blocks f := by cases f <;> rfl

theorem Coherent.card_supply_add_usage (hp : p.Coherent)
    (hends : ∀ b ∈ p.blocks, b.network.family = f → ¬ b.Endless) :
    (p.supply f).card + p.usage.get f = ((p.blocks.filter fun b => b.network.family = f).map Block.count).sum := by
  have hcounts : (p.blocks.filter fun b => b.network.family = f).map Block.count =
      (p.blocks.filter fun b => b.network.family = f).map Block.capacity := by
    refine List.map_congr_left fun b hb => ?_
    obtain ⟨hb, hf⟩ := List.mem_filter.1 hb
    exact (Block.capacity_eq_count (hends b hb (by simpa using hf))).symm
  have hused : (reach f p.blocks).filter (fun s => ¬ p.owner? s = none) =
      ((reservedIn p.blocks).filter fun s => s.family = f).toFinset := by
    ext s
    rw [Finset.mem_filter, reaches_of_ends hends, List.mem_toFinset, List.mem_filter, mem_reservedIn,
      ← ne_eq, Option.ne_none_iff_exists']
    constructor
    · rintro ⟨⟨-, hf⟩, o, ho⟩
      obtain ⟨b, hb, i, hi, ho⟩ := (hp.sound.ownerIn_eq_some_iff s o).1 ho
      exact ⟨⟨b, hb, i, hi, o, ho⟩, by simpa using hf⟩
    · rintro ⟨⟨b, hb, i, hi, o, ho⟩, hf⟩
      have hown : p.owner? s = some o := (hp.sound.ownerIn_eq_some_iff s o).2 ⟨b, hb, i, hi, ho⟩
      exact ⟨⟨hosts_of_owner? hown, by simpa using hf⟩, o, hown⟩
  rw [hcounts, ← hp.sound.card_reach, usage_get_eq, hp.sound.usageOf_eq,
    ← List.toFinset_card_of_nodup (hp.sound.nodup_reservedIn.filter _), ← hused]
  exact Finset.card_filter_add_card_filter_not _

/-! ## Requests that give nothing back -/

/-- The request registers nothing and leaves every reservation in place. -/
def Request.Retains (q : Request) (p : Pool) : Prop :=
  (∀ s, (q.perform p).2.Hosts s ↔ p.Hosts s) ∧ ∀ s o, p.owner? s = some o → (q.perform p).2.owner? s = some o

def Retaining : List Request → Pool → Prop
  | [], _ => True
  | q :: rest, p => q.Retains p ∧ Retaining rest (q.perform p).2

def Request.Reserves : Request → Prop
  | .addRange .. | .release .. | .releaseAll .. => False
  | .allocate .. | .mark .. | .allocated .. | .count | .usage => True

/-- **Nothing but a release or a registration fails to retain everything.** -/
theorem Coherent.retains (hp : p.Coherent) {q : Request} (hq : q.Reserves) : q.Retains p := by
  cases q with
  | addRange network hostLength => exact hq.elim
  | allocate o f =>
    show (∀ s, (p.allocate o f).2.Hosts s ↔ p.Hosts s) ∧
      ∀ s x, p.owner? s = some x → (p.allocate o f).2.owner? s = some x
    rcases hp.allocate_cases o f with ⟨t, place, hplace, hfree, -, ha⟩ | ⟨-, ha⟩ <;> rw [ha]
    · refine ⟨hosts_assign, fun s x hown => ?_⟩
      have hst : s ≠ t := by
        rintro rfl
        rw [hfree] at hown
        cases hown
      have hassign := ownerIn_assign hplace (some o) s
      rw [if_neg hst] at hassign
      exact hassign.trans hown
    · exact ⟨fun s => Iff.rfl, fun s x hown => hown⟩
  | mark o l =>
    refine ⟨hosts_mark o l p, fun s x hown => ?_⟩
    show (p.mark o l).2.owner? s = some x
    rw [owner?_mark, if_neg (by simp [hown]), hown]
  | release o l => exact hq.elim
  | releaseAll o => exact hq.elim
  | allocated o => exact ⟨fun s => Iff.rfl, fun s x hown => hown⟩
  | count => exact ⟨fun s => Iff.rfl, fun s x hown => hown⟩
  | usage => exact ⟨fun s => Iff.rfl, fun s x hown => hown⟩

theorem Retaining.hosts {requests : List Request} (h : Retaining requests p) (s : Cidr) :
    (p.after requests).Hosts s ↔ p.Hosts s := by
  induction requests generalizing p with
  | nil => exact Iff.rfl
  | cons q rest ih => exact (ih h.2).trans (h.1.1 s)

theorem Retaining.owner? {requests : List Request} (h : Retaining requests p) {x : String}
    (hown : p.owner? s = some x) : (p.after requests).owner? s = some x := by
  induction requests generalizing p with
  | nil => exact hown
  | cons q rest ih => exact ih h.2 (h.1.2 s x hown)

theorem exists_block_iff : (∃ b ∈ p.blocks, b.network.family = f) ↔ ∃ s, p.Hosts s ∧ s.family = f := by
  constructor
  · rw [← reach_nonempty_iff]
    rintro ⟨s, hs⟩
    exact ⟨s, hosts_of_mem_reach hs, family_of_mem_reach hs⟩
  · rintro ⟨s, hhosts, rfl⟩
    obtain ⟨b, hb, i, hi⟩ := locate_isSome_iff.1 hhosts
    exact ⟨b, hb, (Block.family_of_index? hi).symm⟩

theorem Reaches.supply_retaining (hreaches : p.Reaches f) (hempty : p.supply f = ∅) {requests : List Request}
    (h : Retaining requests p) : (p.after requests).supply f = ∅ := by
  rw [Finset.eq_empty_iff_forall_notMem]
  intro s hs
  obtain ⟨hreach, hfree⟩ := mem_supply.1 hs
  have hhosts : p.Hosts s := (h.hosts s).1 (hosts_of_mem_reach hreach)
  cases hown : p.owner? s with
  | none =>
    have hnew := hreaches.mem_supply_iff.2 ⟨⟨hhosts, hown⟩, family_of_mem_reach hreach⟩
    rw [hempty] at hnew
    exact absurd hnew (Finset.notMem_empty s)
  | some x =>
    rw [h.owner? hown] at hfree
    cases hfree

/-! ## One allocation after the other -/

/-- Subnets of a family allocated for owners, one after the other: the replies and the pool in the end. -/
def allocateEach (f : Family) : List String → Pool → List (Except PoolError (Option Cidr)) × Pool
  | [], p => ([], p)
  | o :: rest, p =>
    let (reply, p) := p.allocate o f
    let (replies, p) := allocateEach f rest p
    (reply :: replies, p)

theorem Coherent.hosts_allocateEach (hp : p.Coherent) (f : Family) (owners : List String) (s : Cidr) :
    (p.allocateEach f owners).2.Hosts s ↔ p.Hosts s := by
  induction owners generalizing p with
  | nil => exact Iff.rfl
  | cons o rest ih => exact (ih (hp.allocate o f)).trans ((hp.retains (q := .allocate o f) trivial).1 s)

theorem Coherent.allocateEach_supply (hp : p.Coherent) (hreaches : p.Reaches f) {owners : List String}
    (hlen : owners.length = (p.supply f).card) :
    ∃ subnets : List Cidr, (p.allocateEach f owners).1 = subnets.map (fun s => .ok (some s)) ∧ subnets.Nodup ∧
      (∀ s, s ∈ subnets ↔ s ∈ p.supply f) ∧ (p.allocateEach f owners).2.Coherent ∧
      (p.allocateEach f owners).2.Reaches f ∧ (p.allocateEach f owners).2.supply f = ∅ := by
  induction owners generalizing p with
  | nil =>
    have hempty : p.supply f = ∅ := Finset.card_eq_zero.1 hlen.symm
    exact ⟨[], rfl, List.nodup_nil, by simp [hempty], hp, hreaches, hempty⟩
  | cons o rest ih =>
    rcases hp.allocate_supply o f with ⟨s, hs, hreply, htakes⟩ | ⟨hempty, -⟩
    · have hrest : rest.length = ((p.allocate o f).2.supply f).card := by
        rw [htakes.supply, Finset.card_erase_of_mem hs, ← hlen, List.length_cons, Nat.add_sub_cancel]
      obtain ⟨subnets, hreplies, hnodup, hmem, hend⟩ := ih (hp.allocate o f) (hp.reaches_allocate o hreaches) hrest
      simp only [htakes.supply, Finset.mem_erase] at hmem
      refine ⟨s :: subnets, ?_, List.nodup_cons.2 ⟨fun h => ((hmem s).1 h).1 rfl, hnodup⟩, fun t => ?_, hend⟩
      · show (p.allocate o f).1 :: (allocateEach f rest (p.allocate o f).2).1 = _
        rw [hreply, hreplies, List.map_cons]
      · rw [List.mem_cons, hmem]
        by_cases hts : t = s
        · simp [hts, hs]
        · simp [hts]
    · rw [hempty, Finset.card_empty] at hlen
      cases hlen

/-- **No subnet is lost, whatever was done before.** In a family with a range, as many allocations succeed as its
ranges have subnets that are not in use, for any owners; each gives a new one and together they give precisely those
that were free. Then allocation finds nothing until something is given back or registered. -/
theorem allocate_exhausts (requests : List Request) (f : Family) :
    let p := empty.after requests
    let total := ((p.blocks.filter fun b => b.network.family = f).map Block.count).sum
    (∃ b ∈ p.blocks, b.network.family = f) → (∀ b ∈ p.blocks, b.network.family = f → ¬ b.Endless) →
      p.usage.get f ≤ total ∧
        ∀ owners : List String, owners.length = total - p.usage.get f →
          ∃ subnets : List Cidr,
            (p.allocateEach f owners).1 = subnets.map (fun s => .ok (some s)) ∧ subnets.Nodup ∧
              (∀ s, s ∈ subnets ↔ p.Free s ∧ s.family = f) ∧
                ∀ later, Retaining later (p.allocateEach f owners).2 →
                  ∀ o, (((p.allocateEach f owners).2.after later).allocate o f).1 = .ok none := by
  intro p total hrange hends
  have hp : p.Coherent := coherent_empty.after requests
  have hreaches : p.Reaches f := reaches_of_ends hends
  have hcount : (p.supply f).card + p.usage.get f = total := hp.card_supply_add_usage hends
  refine ⟨by omega, fun owners hlen => ?_⟩
  obtain ⟨subnets, hreplies, hnodup, hmem, hp', hreaches', hempty⟩ :=
    hp.allocateEach_supply hreaches (by omega : owners.length = _)
  refine ⟨subnets, hreplies, hnodup, fun s => (hmem s).trans hreaches.mem_supply_iff, fun later hlater o => ?_⟩
  have hstill : ∃ b ∈ ((p.allocateEach f owners).2.after later).blocks, b.network.family = f := by
    simp only [exists_block_iff, hlater.hosts, hp.hosts_allocateEach] at hrange ⊢
    exact hrange
  rcases (hp'.after later).allocate_supply o f with ⟨s, hs, -⟩ | ⟨-, -, hreply⟩
  · rw [hreaches'.supply_retaining hempty hlater] at hs
    exact absurd hs (Finset.notMem_empty s)
  · rw [hreply, if_pos hstill]

/-- A range of four subnets and one of two, after reservations, marks and releases that leave one in use. -/
def spillingRequests : List Request :=
  [.addRange ⟨.v4, 167903232, 30, by decide, by decide⟩ 32, .addRange ⟨.v4, 167903488, 31, by decide, by decide⟩ 32,
    .allocate "a" .v4, .allocate "b" .v4, .mark "c" [⟨.v4, 167903488, 32, by decide, by decide⟩], .releaseAll "a",
    .release "c" [⟨.v4, 167903488, 32, by decide, by decide⟩]]

theorem spilling_exhausts :
    let p := empty.after spillingRequests
    let q := (p.allocateEach .v4 ["a", "a", "c", "a", "a"]).2
    p.usage.get .v4 = 1 ∧
      (∃ subnets : List Cidr, (p.allocateEach .v4 ["a", "a", "c", "a", "a"]).1 = subnets.map (fun s => .ok (some s)) ∧
        subnets.Nodup ∧ ∀ s, s ∈ subnets ↔ p.Free s ∧ s.family = .v4) ∧ (q.allocate "d" .v4).1 = .ok none := by
  intro p q
  obtain ⟨-, hall⟩ := allocate_exhausts spillingRequests .v4 (by decide +kernel) (by decide +kernel)
  obtain ⟨subnets, hreplies, hnodup, hmem, hlater⟩ := hall ["a", "a", "c", "a", "a"] (by decide +kernel)
  exact ⟨by decide +kernel, ⟨subnets, hreplies, hnodup, hmem⟩, hlater [] trivial "d"⟩

end Pool

end HostSubnets
