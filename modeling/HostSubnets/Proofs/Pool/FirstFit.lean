import HostSubnets.Proofs.Pool.Room

/-!
# Which subnet allocation picks

The reply to an allocation depends on the ranges of the family alone, in the order of their registration, and not on
who asks (`allocate_fst`): it is the first subnet that they have left (`firstFree`). Reservations in another family
leave those ranges as they are (`rangesOf_assign`).
-/

namespace HostSubnets.Pool

variable {p : Pool} {o : String} {s : Cidr} {f : Family}

def rangesOf (p : Pool) (f : Family) : List Block := p.blocks.filter fun b => b.network.family = f

/-- The subnet of the lowest number that is left in the first of the ranges that has one. -/
def firstFree (blocks : List Block) : Option Cidr :=
  blocks.findSome? fun b => b.lowestFree.map fun i => b.hostSubnet i.1 i.2

theorem take_fst (o : String) (f : Family) (blocks : List Block) :
    (take o f blocks).map Prod.fst = firstFree (blocks.filter fun b => b.network.family = f) := by
  induction blocks with
  | nil => rfl
  | cons b rest ih =>
    have hlater : ((take o f rest).map fun taken => (taken.1, b :: taken.2)).map Prod.fst =
        (take o f rest).map Prod.fst := by
      rw [Option.map_map]
      rfl
    rw [take, List.filter_cons]
    by_cases hf : b.network.family = f
    · rw [if_pos hf, if_pos (by simpa using hf), firstFree, List.findSome?_cons]
      cases b.lowestFree with
      | some i => rfl
      | none => exact hlater.trans ih
    · rw [if_neg hf, if_neg (by simpa using hf)]
      exact hlater.trans ih

/-- **What allocation answers**: the first subnet that the ranges of the family have left, whoever asks. -/
theorem allocate_fst (o : String) (f : Family) (p : Pool) :
    (p.allocate o f).1 = if p.rangesOf f = [] then .error (.noRange f) else .ok (firstFree (p.rangesOf f)) := by
  have hany : (p.blocks.any fun b => b.network.family == f) = true ↔ p.rangesOf f ≠ [] := by
    simp [rangesOf]
  have htake := take_fst o f p.blocks
  unfold allocate
  by_cases hranges : p.rangesOf f = []
  · rw [if_neg (by rw [hany, not_not]; exact hranges), if_pos hranges]
  · rw [if_pos (hany.2 hranges), if_neg hranges]
    cases hfound : take o f p.blocks with
    | some taken =>
      rw [hfound] at htake
      exact congrArg Except.ok htake
    | none =>
      rw [hfound] at htake
      exact congrArg Except.ok htake

theorem Coherent.allocate_firstFree (hp : p.Coherent) (o : String) (f : Family) :
    (p.rangesOf f = [] ∧ p.allocate o f = (.error (.noRange f), p)) ∨
      (p.rangesOf f ≠ [] ∧ firstFree (p.rangesOf f) = none ∧ p.allocate o f = (.ok none, p)) ∨
        ∃ s place, p.rangesOf f ≠ [] ∧ firstFree (p.rangesOf f) = some s ∧ locate s p.blocks = some place ∧
          p.owner? s = none ∧ s.family = f ∧
            p.allocate o f = (.ok (some s), ⟨assign place (some o) p.blocks, hold o s p.held⟩) := by
  have hreply := allocate_fst o f p
  by_cases hranges : p.rangesOf f = []
  · rw [if_pos hranges] at hreply
    rcases hp.allocate_cases o f with ⟨s, place, -, -, -, ha⟩ | ⟨-, hsame⟩
    · rw [ha] at hreply
      cases hreply
    · exact Or.inl ⟨hranges, Prod.ext hreply hsame⟩
  · rw [if_neg hranges] at hreply
    rcases hp.allocate_cases o f with ⟨s, place, hplace, hfree, hsf, ha⟩ | ⟨hno, hsame⟩
    · rw [ha] at hreply
      exact Or.inr (Or.inr ⟨s, place, hranges, (Except.ok.inj hreply).symm, hplace, hfree, hsf, ha⟩)
    · have hnone : firstFree (p.rangesOf f) = none := by
        rw [Option.eq_none_iff_forall_ne_some]
        exact fun s hs => hno s (hs ▸ hreply)
      rw [hnone] at hreply
      exact Or.inr (Or.inl ⟨hranges, hnone, Prod.ext hreply hsame⟩)

theorem rangesOf_eq_nil_iff : p.rangesOf f = [] ↔ ∀ b ∈ p.blocks, b.network.family ≠ f := by
  simp [rangesOf]

/-! ## Reservations in another family -/

theorem filter_family_assign {blocks : List Block} {place : Nat × Nat} (h : locate s blocks = some place)
    (x : Option String) (hf : s.family ≠ f) :
    (assign place x blocks).filter (fun b => b.network.family = f) = blocks.filter fun b => b.network.family = f := by
  obtain ⟨before, b, after, rfl, hb, hassign⟩ := exists_split_of_locate h
  have hother : b.network.family ≠ f := fun hbf => hf ((Block.family_of_index? hb).trans hbf)
  rw [hassign, List.filter_append, List.filter_append, List.filter_cons, List.filter_cons, Block.network_assign]
  simp [hother]

theorem rangesOf_assign {place : Nat × Nat} (h : locate s p.blocks = some place) (x : Option String)
    (held : SortedMap String (List Cidr)) (hf : s.family ≠ f) :
    (⟨assign place x p.blocks, held⟩ : Pool).rangesOf f = p.rangesOf f := filter_family_assign h x hf

theorem rangesOf_mark_one (o : String) (hf : s.family ≠ f) : (p.mark o [s]).2.rangesOf f = p.rangesOf f := by
  unfold mark attemptAll
  rcases markOne_cases o p s with ⟨-, hm⟩ | ⟨place, hplace, -, hm⟩ | ⟨-, e, hm⟩ <;> rw [hm]
  · rfl
  · exact rangesOf_assign hplace (some o) _ hf
  · rfl

theorem rangesOf_release_one (hf : s.family = f → p.owner? s ≠ some o) :
    (p.release o [s]).2.rangesOf f = p.rangesOf f := by
  unfold release attemptAll
  rcases releaseOne_cases o p s with ⟨place, hplace, hown, hm⟩ | ⟨-, e, hm⟩ <;> rw [hm]
  · exact rangesOf_assign hplace none _ fun hsf => hf hsf hown
  · rfl

theorem Coherent.rangesOf_allocate (hp : p.Coherent) (o : String) {g : Family} (hf : g ≠ f) :
    (p.allocate o g).2.rangesOf f = p.rangesOf f := by
  rcases hp.allocate_cases o g with ⟨s, place, hplace, -, hsf, ha⟩ | ⟨-, ha⟩ <;> rw [ha]
  exact rangesOf_assign hplace (some o) _ fun hs => hf (hsf.symm.trans hs)

end HostSubnets.Pool
