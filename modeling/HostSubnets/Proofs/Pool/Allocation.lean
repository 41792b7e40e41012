import HostSubnets.Proofs.Pool.FirstFit
import HostSubnets.Proofs.Pool.Lists

/-!
# First fit

`FirstFit` : a subnet that is the lowest one left of the first range that has one left. It is told by the ranges in
their order and by which subnets are reserved, and allocation gives that one (`Coherent.firstFree_eq_some_iff`).

* `allocate_first_fit` : the reply of an allocation and what it changes, for all pools that there can be;
* `Coherent.allocate_congr` : pools of the same ranges with the same subnets reserved give the same reply.
-/

namespace HostSubnets

def Block.Hosts (b : Block) (s : Cidr) : Prop := ∃ i, b.index? s = some i

namespace Pool

variable {p q : Pool} {o o' : String} {s : Cidr} {f : Family} {b : Block}

def Reserved (p : Pool) (s : Cidr) : Prop := ∃ o, p.owner? s = some o

/-- The subnet of the lowest address that is not reserved, in the first of the ranges that has one. -/
def FirstFit (ranges : List Block) (reserved : Cidr → Prop) (s : Cidr) : Prop :=
  ∃ before b rest, ranges = before ++ b :: rest ∧ (∀ c ∈ before, ∀ t, c.Hosts t → reserved t) ∧
    b.Hosts s ∧ ¬ reserved s ∧ ∀ t, b.Hosts t → ¬ reserved t → s.address ≤ t.address

theorem firstFit_map_bare {ranges : List Block} {reserved : Cidr → Prop} :
    FirstFit (ranges.map Block.bare) reserved s ↔ FirstFit ranges reserved s := by
  constructor
  · rintro ⟨before, b, rest, hranges, hbefore, hs⟩
    obtain ⟨l, l', rfl, rfl, htail⟩ := List.map_eq_append_iff.1 hranges
    obtain ⟨c, rest', rfl, rfl, rfl⟩ := List.map_eq_cons_iff.1 htail
    exact ⟨l, c, rest', rfl, fun d hd => hbefore d.bare (List.mem_map_of_mem hd), hs⟩
  · rintro ⟨before, b, rest, rfl, hbefore, hs⟩
    refine ⟨before.map Block.bare, b.bare, rest.map Block.bare, by simp, fun c hc => ?_, hs⟩
    obtain ⟨d, hd, rfl⟩ := List.mem_map.1 hc
    exact hbefore d hd

theorem map_bare_rangesOf (p : Pool) (f : Family) :
    (p.rangesOf f).map Block.bare = p.layout.filter fun b => b.network.family = f := by
  rw [rangesOf, layout, List.filter_map]
  rfl

/-! ## What a range has left -/

theorem Coherent.reserved_iff_mem_heldSubnets (hp : p.Coherent) : p.Reserved s ↔ s ∈ p.heldSubnets := by
  rw [mem_heldSubnets]
  exact exists_congr fun o => (hp.mirrored o s).symm

theorem mem_rangesOf : b ∈ p.rangesOf f ↔ b ∈ p.blocks ∧ b.network.family = f := by
  simp [rangesOf]

theorem Coherent.reserved_iff (hp : p.Coherent) (hb : b ∈ p.blocks) {i : Nat} (hi : b.index? s = some i) :
    p.Reserved s ↔ b.owner? i ≠ none := by
  rw [Option.ne_none_iff_exists', ← hp.sound.ownerIn_eq hb hi]
  rfl

theorem Coherent.lowestFree_eq_none_iff (hp : p.Coherent) (hb : b ∈ p.blocks) (hends : ¬ b.Endless) :
    b.lowestFree = none ↔ ∀ t, b.Hosts t → p.Reserved t := by
  simp only [Block.lowestFree_eq_none_iff, Block.capacity_eq_count hends, Option.isSome_iff_ne_none]
  constructor
  · rintro hall t ⟨i, hi⟩
    exact (hp.reserved_iff hb hi).2 (hall i (Block.eq_hostSubnet_of_index? hi).1)
  · intro hall i hi
    have hindex := b.index?_hostSubnet hi
    exact (hp.reserved_iff hb hindex).1 (hall _ ⟨i, hindex⟩)

theorem Coherent.lowestFree_eq_some_iff (hp : p.Coherent) (hb : b ∈ p.blocks) (hends : ¬ b.Endless) :
    (b.lowestFree.map fun i => b.hostSubnet i.1 i.2) = some s ↔
      b.Hosts s ∧ ¬ p.Reserved s ∧ ∀ t, b.Hosts t → ¬ p.Reserved t → s.address ≤ t.address := by
  rw [Option.map_eq_some_iff]
  constructor
  · rintro ⟨⟨i, hi⟩, hlow, rfl⟩
    obtain ⟨-, hfree, hlower⟩ := Block.lowestFree_eq_some_iff.1 hlow
    have hindex := b.index?_hostSubnet hi
    refine ⟨⟨i, hindex⟩, fun hreserved => (hp.reserved_iff hb hindex).1 hreserved hfree, ?_⟩
    rintro t ⟨j, hj⟩ ht
    obtain ⟨hjcount, rfl⟩ := Block.eq_hostSubnet_of_index? hj
    refine Nat.le_of_not_lt fun hlt => ht ((hp.reserved_iff hb hj).2 (hlower j ?_))
    exact (b.address_hostSubnet_lt_iff hjcount hi).1 hlt
  · rintro ⟨⟨i, hindex⟩, hfree, hlowest⟩
    obtain ⟨hi, rfl⟩ := Block.eq_hostSubnet_of_index? hindex
    refine ⟨⟨i, hi⟩, Block.lowestFree_eq_some_iff.2 ⟨?_, ?_, fun j hji hj => ?_⟩, rfl⟩
    · rwa [Block.capacity_eq_count hends]
    · exact Classical.not_not.1 fun hown => hfree ((hp.reserved_iff hb hindex).2 hown)
    · have hjcount := Nat.lt_trans hji hi
      have hjindex := b.index?_hostSubnet hjcount
      have hle := hlowest _ ⟨j, hjindex⟩ fun hreserved => (hp.reserved_iff hb hjindex).1 hreserved hj
      exact Nat.not_lt.2 hle ((b.address_hostSubnet_lt_iff hjcount hi).2 hji)

/-! ## What allocation finds -/

section Ends

variable (hp : p.Coherent) (hends : ∀ b ∈ p.blocks, b.network.family = f → ¬ b.Endless)
include hp hends

theorem Coherent.firstFree_eq_none_iff :
    firstFree (p.rangesOf f) = none ↔
      ∀ b ∈ p.blocks, b.network.family = f → ∀ t, b.Hosts t → p.Reserved t := by
  rw [firstFree, List.findSome?_eq_none_iff]
  constructor
  · intro hall b hb hf
    exact (hp.lowestFree_eq_none_iff hb (hends b hb hf)).1
      (Option.map_eq_none_iff.1 (hall b (mem_rangesOf.2 ⟨hb, hf⟩)))
  · intro hall b hb
    obtain ⟨hb, hf⟩ := mem_rangesOf.1 hb
    exact Option.map_eq_none_iff.2 ((hp.lowestFree_eq_none_iff hb (hends b hb hf)).2 (hall b hb hf))

/-- **The first subnet that the ranges have left is the first fit.** -/
theorem Coherent.firstFree_eq_some_iff :
    firstFree (p.rangesOf f) = some s ↔ FirstFit (p.rangesOf f) p.Reserved s := by
  rw [firstFree, List.findSome?_eq_some_iff]
  refine exists_congr fun before => exists_congr fun b => exists_congr fun rest =>
    and_congr_right fun hranges => ?_
  have hmem : ∀ c ∈ before ++ b :: rest, c ∈ p.blocks ∧ ¬ c.Endless := by
    intro c hc
    obtain ⟨hblock, hf⟩ := mem_rangesOf.1 (hranges ▸ hc)
    exact ⟨hblock, hends c hblock hf⟩
  obtain ⟨hb, hbends⟩ := hmem b (by simp)
  rw [and_comm, hp.lowestFree_eq_some_iff hb hbends]
  refine and_congr_left fun _ => forall₂_congr fun c hc => ?_
  obtain ⟨hc, hcends⟩ := hmem c (List.mem_append_left _ hc)
  rw [Option.map_eq_none_iff]
  exact hp.lowestFree_eq_none_iff hc hcends

/-- **Of the history and the owners nothing matters to the reply but which subnets are reserved.** -/
theorem Coherent.allocate_congr (hq : q.Coherent) (hlayout : q.layout = p.layout)
    (hreserved : ∀ t, q.Reserved t ↔ p.Reserved t) : (q.allocate o' f).1 = (p.allocate o f).1 := by
  have hmap : (q.rangesOf f).map Block.bare = (p.rangesOf f).map Block.bare := by
    rw [map_bare_rangesOf, map_bare_rangesOf, hlayout]
  have hqends : ∀ b ∈ q.blocks, b.network.family = f → ¬ b.Endless := by
    intro b hb hf
    obtain ⟨c, hc, hbare⟩ := List.mem_map.1 (hmap ▸ List.mem_map_of_mem (mem_rangesOf.2 ⟨hb, hf⟩))
    obtain ⟨hc, hcf⟩ := mem_rangesOf.1 hc
    have hsame : c.bare.Endless ↔ b.bare.Endless := iff_of_eq (congrArg Block.Endless hbare)
    exact hsame.not.1 (hends c hc hcf)
  have hnil : q.rangesOf f = [] ↔ p.rangesOf f = [] := by
    rw [← List.map_eq_nil_iff (f := Block.bare), hmap, List.map_eq_nil_iff]
  have hfirst : firstFree (q.rangesOf f) = firstFree (p.rangesOf f) := by
    refine Option.ext fun s => ?_
    rw [hq.firstFree_eq_some_iff hqends, hp.firstFree_eq_some_iff hends, ← firstFit_map_bare, hmap, firstFit_map_bare,
      funext fun t => propext (hreserved t)]
  rw [allocate_fst, allocate_fst, hfirst]
  simp only [hnil]

end Ends

theorem Coherent.allocate_snd (hp : p.Coherent) (o : String) (f : Family) :
    (∀ s, (p.allocate o f).1 = .ok (some s) →
      (p.allocate o f).2.layout = p.layout ∧
        (∀ t, (p.allocate o f).2.owner? t = if t = s then some o else p.owner? t) ∧
          ∀ x, (p.allocate o f).2.allocated x = if x = o then p.allocated o ++ [s] else p.allocated x) ∧
      ((∀ s, (p.allocate o f).1 ≠ .ok (some s)) → (p.allocate o f).2 = p) := by
  rcases hp.allocate_cases o f with ⟨s, place, hplace, -, -, ha⟩ | ⟨hno, hsame⟩
  · rw [ha]
    refine ⟨fun t ht => ?_, fun hno => absurd rfl (hno s)⟩
    obtain rfl : s = t := Option.some.inj (Except.ok.inj ht)
    exact ⟨layout_assign place (some o) p.blocks, ownerIn_assign hplace (some o),
      fun x => allocated_hold o x s p _⟩
  · exact ⟨fun s hs => absurd hs (hno s), fun _ => hsame⟩

/-- **First fit.** Whatever was done to a pool before, an allocation fails if there is no range of the family, comes to
nothing if all of its subnets are reserved, and otherwise gives the lowest subnet that is left of the first range that
has one left. The owner then holds that one besides what it had, and there is no other change. A pool of the same
ranges in which the same subnets are reserved gives the same reply, to anybody. -/
theorem allocate_first_fit (requests : List Request) (o : String) (f : Family) :
    let p := empty.after requests
    (∀ b ∈ p.blocks, b.network.family = f → ¬ b.Endless) →
      ((p.allocate o f).1 = .error (.noRange f) ↔ ∀ b ∈ p.blocks, b.network.family ≠ f) ∧
      (∀ e, (p.allocate o f).1 = .error e → e = .noRange f) ∧
      ((p.allocate o f).1 = .ok none ↔ (∃ b ∈ p.blocks, b.network.family = f) ∧
        ∀ b ∈ p.blocks, b.network.family = f → ∀ s, b.Hosts s → p.Reserved s) ∧
      (∀ s, (p.allocate o f).1 = .ok (some s) ↔ FirstFit (p.rangesOf f) p.Reserved s) ∧
      (∀ s, (p.allocate o f).1 = .ok (some s) →
        (p.allocate o f).2.layout = p.layout ∧
          (∀ t, (p.allocate o f).2.owner? t = if t = s then some o else p.owner? t) ∧
            ∀ x, (p.allocate o f).2.allocated x = if x = o then p.allocated o ++ [s] else p.allocated x) ∧
      ((∀ s, (p.allocate o f).1 ≠ .ok (some s)) → (p.allocate o f).2 = p) ∧
      ∀ (others : List Request) (o' : String), (empty.after others).layout = p.layout →
        (∀ s, (empty.after others).Reserved s ↔ p.Reserved s) →
          ((empty.after others).allocate o' f).1 = (p.allocate o f).1 := by
  intro p hends
  have hp : p.Coherent := coherent_empty.after requests
  have hreply := allocate_fst o f p
  have hrange : (∃ b ∈ p.blocks, b.network.family = f) ↔ p.rangesOf f ≠ [] := by
    rw [Ne, rangesOf_eq_nil_iff]
    simp
  obtain ⟨htaken, hsame⟩ := hp.allocate_snd o f
  refine ⟨?_, ?_, ?_, ?_, htaken, hsame, fun others o' hlayout hreserved =>
    hp.allocate_congr hends (coherent_empty.after others) hlayout hreserved⟩
  all_goals rw [hreply]
  · rw [← rangesOf_eq_nil_iff]
    split <;> simp [*]
  · intro e he
    split at he
    · exact (Except.error.inj he).symm
    · cases he
  · rw [hrange, ← hp.firstFree_eq_none_iff hends]
    split <;> simp [*]
  · intro s
    rw [← hp.firstFree_eq_some_iff hends]
    split
    · rename_i hnil
      simp [hnil, firstFree]
    · simp

/-- A network of two host subnets of 32768 addresses. -/
def pairNetwork : Cidr := ⟨.v6, 0xfd06 <<< 112, 112, by decide, by decide⟩

def quadNetwork : Cidr := ⟨.v6, 0xfd06 <<< 112 + 131072, 111, by decide, by decide⟩

def leftOut : Cidr := ⟨.v6, 0xfd06 <<< 112 + 163840, 113, by decide, by decide⟩

/-- The first network is full and in the second one a subnet was left out. -/
def markedRequests : List Request :=
  [.addRange pairNetwork 113, .addRange quadNetwork 113,
    .mark "a" [⟨.v6, 0xfd06 <<< 112, 113, by decide, by decide⟩,
      ⟨.v6, 0xfd06 <<< 112 + 32768, 113, by decide, by decide⟩,
      ⟨.v6, 0xfd06 <<< 112 + 131072, 113, by decide, by decide⟩,
      ⟨.v6, 0xfd06 <<< 112 + 196608, 113, by decide, by decide⟩]]

/-- The same subnets reserved in another way, for several owners. -/
def sharedRequests : List Request :=
  [.addRange pairNetwork 113, .addRange quadNetwork 113, .allocate "b" .v6, .allocate "c" .v6, .allocate "b" .v6,
    .allocate "d" .v6, .allocate "c" .v6, .releaseAll "d"]

theorem gap_filled_first :
    let p := empty.after markedRequests
    FirstFit (p.rangesOf .v6) p.Reserved leftOut ∧
      ((empty.after sharedRequests).allocate "d" .v6).1 = (p.allocate "e" .v6).1 := by
  intro p
  obtain ⟨-, -, -, hfits, -, -, hcongr⟩ := allocate_first_fit markedRequests "e" .v6 (by decide +kernel)
  have hreply : (p.allocate "e" .v6).1 = .ok (some leftOut) := by decide +kernel
  have hlayout : (empty.after sharedRequests).layout = p.layout := rfl
  have hperm : (empty.after sharedRequests).heldSubnets.Perm p.heldSubnets := by decide +kernel
  refine ⟨(hfits _).1 hreply, hcongr sharedRequests "d" hlayout fun s => ?_⟩
  rw [(coherent_empty.after _).reserved_iff_mem_heldSubnets, (coherent_empty.after _).reserved_iff_mem_heldSubnets]
  exact hperm.mem_iff

end Pool

end HostSubnets
