import HostSubnets.Proofs.Pool.Operations
import HostSubnets.Range

/-!
# Registration

What a registration does is told by the lengths and by the addresses that the network shares with those registered
(`addRange_ok_iff`, `addRange_overlap_iff`). So the ranges of a list are all registered exactly if no two of them share
an address and none shares one with those already there (`accepts_iff`), in whichever order they come:
`registration_exact`.
-/

namespace HostSubnets.Pool

variable {p : Pool} {network : Cidr} {hostLength : Nat}

/-! ## One range -/

theorem addRange_ok_iff :
    (p.addRange network hostLength).1 = .ok () ↔
      (network.length ≤ hostLength ∧ hostLength ≤ network.family.bits) ∧
        ∀ b ∈ p.blocks, ¬ b.network.Meets network := by
  have hnone : p.blocks.find? (·.network.Meets network) = none ↔ ∀ b ∈ p.blocks, ¬ b.network.Meets network := by
    simp [List.find?_eq_none]
  rcases addRange_result network hostLength p with
    ⟨hbounds, _, _, ha⟩ | ⟨_, -, c, hfind, ha⟩ | ⟨b, hof, hfind, ha⟩ <;> rw [ha, ← hnone]
  · simp [hbounds]
  · simp [hfind]
  · obtain ⟨hlow, hhigh, -⟩ := Block.of_eq_ok_iff.1 hof
    simp [hlow, hhigh, hfind]

theorem addRange_of_ok (h : (p.addRange network hostLength).1 = .ok ()) :
    ∃ b : Block, b.network = network.masked ∧ b.hostLength = hostLength ∧ b.used = .empty ∧
      (p.addRange network hostLength).2 = { p with blocks := p.blocks ++ [b] } := by
  rcases addRange_result network hostLength p with
    ⟨-, _, _, ha⟩ | ⟨_, -, _, -, ha⟩ | ⟨b, hof, -, ha⟩ <;> rw [ha] at h ⊢
  · cases h
  · cases h
  · obtain ⟨-, -, hnetwork, hlength, hused⟩ := Block.of_eq_ok_iff.1 hof
    exact ⟨b, hnetwork, hlength, hused, rfl⟩

theorem addRange_of_error {e : PoolError} (h : (p.addRange network hostLength).1 = .error e) :
    (p.addRange network hostLength).2 = p := by
  rcases addRange_result network hostLength p with
    ⟨-, _, _, ha⟩ | ⟨_, -, _, -, ha⟩ | ⟨_, -, -, ha⟩ <;> rw [ha] at h ⊢
  cases h

theorem addRange_overlap_iff {range existing : Cidr} :
    (p.addRange network hostLength).1 = .error (.rangeOverlap range existing) ↔
      (network.length ≤ hostLength ∧ hostLength ≤ network.family.bits) ∧ range = network.masked ∧
        ∃ before b rest, p.blocks = before ++ b :: rest ∧ b.network = existing ∧ b.network.Meets network ∧
          ∀ c ∈ before, ¬ c.network.Meets network := by
  have hearliest : (∃ b, p.blocks.find? (·.network.Meets network) = some b ∧ b.network = existing) ↔
      ∃ before b rest, p.blocks = before ++ b :: rest ∧ b.network = existing ∧ b.network.Meets network ∧
        ∀ c ∈ before, ¬ c.network.Meets network := by
    simp only [List.find?_eq_some_iff_append, decide_eq_true_iff, Bool.not_eq_true', decide_eq_false_iff_not]
    constructor
    · rintro ⟨b, ⟨hmeets, before, rest, hblocks, hbefore⟩, hb⟩
      exact ⟨before, b, rest, hblocks, hb, hmeets, hbefore⟩
    · rintro ⟨before, b, rest, hblocks, hb, hmeets, hbefore⟩
      exact ⟨b, ⟨hmeets, before, rest, hblocks, hbefore⟩, hb⟩
  rw [← hearliest]
  rcases addRange_result network hostLength p with
    ⟨hbounds, _, _, ha⟩ | ⟨_, hof, c, hfind, ha⟩ | ⟨_, -, hfind, ha⟩ <;> rw [ha]
  · simp [hbounds]
  · obtain ⟨hlow, hhigh, -⟩ := Block.of_eq_ok_iff.1 hof
    simp [hlow, hhigh, hfind, eq_comm]
  · simp [hfind]

/-! ## Lists of ranges -/

def Accepts : Pool → List SubnetRange → Prop
  | _, [] => True
  | p, range :: rest => (p.addRange range.network range.hostLength).1 = .ok () ∧
      Accepts (p.addRange range.network range.hostLength).2 rest

/-- All ranges of a list are registered if each one divides into its host subnets, and no two of them share an address,
nor any one with those that are registered. -/
theorem accepts_iff {l : List SubnetRange} :
    p.Accepts l ↔
      (∀ r ∈ l, (r.network.length ≤ r.hostLength ∧ r.hostLength ≤ r.network.family.bits) ∧
        ∀ b ∈ p.blocks, ¬ b.network.Meets r.network) ∧
      l.Pairwise fun r s => ¬ r.network.Meets s.network := by
  induction l generalizing p with
  | nil => simp [Accepts]
  | cons range rest ih =>
    rw [Accepts, ih, List.forall_mem_cons, List.pairwise_cons, ← addRange_ok_iff, and_assoc]
    refine and_congr_right fun hok => ?_
    obtain ⟨b, hnetwork, -, -, hadded⟩ := addRange_of_ok hok
    have hnew : ∀ s : SubnetRange, b.network.Meets s.network ↔ range.network.Meets s.network := fun s => by
      rw [hnetwork, ← Cidr.meets_masked_right, Cidr.meets_masked]
    -- The range just registered is one that the later ones are compared with.
    simp only [hadded, List.forall_mem_append, List.forall_mem_singleton, hnew, forall_and]
    tauto

/-- **Registration.** A range is registered if the length of its host subnets is between that of the network and the
width of the family, and no range has an address of it. It comes last then, without its host bits. Otherwise nothing
changes, and a range that shares addresses is refused with the earliest one that has some of them. In which order
ranges come makes no difference to whether they are all registered. -/
theorem registration_exact (p : Pool) :
    (∀ network hostLength,
      ((p.addRange network hostLength).1 = .ok () ↔
        (network.length ≤ hostLength ∧ hostLength ≤ network.family.bits) ∧
          ∀ b ∈ p.blocks, ¬ b.network.Meets network) ∧
      ((p.addRange network hostLength).1 = .ok () →
        ∃ b : Block, b.network = network.masked ∧ b.hostLength = hostLength ∧ b.used = .empty ∧
          (p.addRange network hostLength).2 = { p with blocks := p.blocks ++ [b] }) ∧
      (∀ e, (p.addRange network hostLength).1 = .error e → (p.addRange network hostLength).2 = p) ∧
      ∀ range existing, (p.addRange network hostLength).1 = .error (.rangeOverlap range existing) ↔
        (network.length ≤ hostLength ∧ hostLength ≤ network.family.bits) ∧ range = network.masked ∧
          ∃ before b rest, p.blocks = before ++ b :: rest ∧ b.network = existing ∧ b.network.Meets network ∧
            ∀ c ∈ before, ¬ c.network.Meets network) ∧
    ∀ l l' : List SubnetRange, l.Perm l' → (p.Accepts l ↔ p.Accepts l') := by
  refine ⟨fun network hostLength => ⟨addRange_ok_iff, addRange_of_ok, fun _ => addRange_of_error,
    fun _ _ => addRange_overlap_iff⟩, fun l l' hperm => ?_⟩
  have hsymm : ∀ {r s : SubnetRange}, ¬ r.network.Meets s.network → ¬ s.network.Meets r.network :=
    fun hno hmeets => hno hmeets.symm
  rw [accepts_iff, accepts_iff, hperm.pairwise_iff hsymm]
  simp only [hperm.mem_iff]

/-- A subnet of 4096 addresses, its neighbour, and a network that holds both, with host bits. -/
def lowerHalf : SubnetRange := ⟨⟨.v6, 0xfd05 <<< 112, 116, by decide, by decide⟩, 122, by decide⟩

def upperHalf : SubnetRange := ⟨⟨.v6, 0xfd05 <<< 112 + 4096, 116, by decide, by decide⟩, 123, by decide⟩

def bothHalves : SubnetRange := ⟨⟨.v6, 0xfd05 <<< 112 + 7, 114, by decide, by decide⟩, 124, by decide⟩

/-- Both halves can be registered, in either order. With the lower one there, the network of both is refused, since the
two share addresses, and the pool stays as it is. -/
theorem halves_registered :
    (Pool.empty.Accepts [lowerHalf, upperHalf] ∧ Pool.empty.Accepts [upperHalf, lowerHalf]) ∧
      let q := (Pool.empty.addRange lowerHalf.network lowerHalf.hostLength).2
      (q.addRange bothHalves.network bothHalves.hostLength).1 =
          .error (.rangeOverlap bothHalves.network.masked lowerHalf.network.masked) ∧
        (q.addRange bothHalves.network bothHalves.hostLength).2 = q := by
  have hbounds : ∀ r ∈ [lowerHalf, upperHalf, bothHalves],
      r.network.length ≤ r.hostLength ∧ r.hostLength ≤ r.network.family.bits := by decide
  obtain ⟨hone, horder⟩ := registration_exact Pool.empty
  have haccepts : Pool.empty.Accepts [lowerHalf, upperHalf] := by
    rw [accepts_iff]
    exact ⟨fun r hr => ⟨hbounds r (by simp at hr ⊢; tauto), fun b hb => absurd hb List.not_mem_nil⟩, by decide⟩
  refine ⟨⟨haccepts, (horder _ _ (List.Perm.swap _ _ _)).1 haccepts⟩, ?_⟩
  obtain ⟨hok, hadded, -, -⟩ := hone lowerHalf.network lowerHalf.hostLength
  obtain ⟨b, hnetwork, -, -, hq⟩ := hadded haccepts.1
  obtain ⟨hthen, -⟩ := registration_exact (Pool.empty.addRange lowerHalf.network lowerHalf.hostLength).2
  obtain ⟨-, -, hsame, hoverlap⟩ := hthen bothHalves.network bothHalves.hostLength
  have hmeets : lowerHalf.network.masked.Meets bothHalves.network := by decide
  have hrefused := (hoverlap bothHalves.network.masked lowerHalf.network.masked).2
    ⟨hbounds _ (by simp), rfl, [], b, [], by rw [hq]; rfl, hnetwork, hnetwork ▸ hmeets, by simp⟩
  exact ⟨hrefused, hsame _ hrefused⟩

end HostSubnets.Pool
