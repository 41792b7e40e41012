import HostSubnets.Proofs.Pool.Owners
import Mathlib.Data.List.Pairwise

/-!
# Ranges and lists of subnets agree

A pool keeps every reservation twice, as a number of a range and as an entry of an owner's list.

* `Sound` : ranges have no address in common and reserve numbers of their own only;
* `Coherent` : both records say the same (`Coherent.mirrored`), and no list is empty or repeats a subnet;
* `Coherent.reserve`, `Coherent.unreserve` : the two changes that keep this, one subnet entered and one struck.
-/

namespace HostSubnets.Pool

/-- Ranges without a common address, whose reserved numbers are numbers of host subnets. -/
structure Sound (blocks : List Block) : Prop where
  apart : blocks.Pairwise fun b c => ¬ b.network.Meets c.network
  numbered : ∀ b ∈ blocks, ∀ i o, b.owner? i = some o → i < b.count

/-- The ranges are sound and record the same reservations as the lists. -/
structure Coherent (p : Pool) : Prop where
  sound : Sound p.blocks
  mirrored : ∀ o s, s ∈ p.allocated o ↔ p.owner? s = some o
  listed : ∀ o l, p.held.find? o = some l → l.Nodup ∧ l ≠ []

theorem coherent_empty : Coherent empty where
  sound := ⟨List.Pairwise.nil, fun _ h => by cases h⟩
  mirrored := fun o s => by simp [allocated, empty, owner?, ownerIn, locate]
  listed := fun o l h => by simp [empty] at h

/-! ## Ranges -/

theorem Sound.of_cons {b : Block} {rest : List Block} (h : Sound (b :: rest)) : Sound rest :=
  ⟨(List.pairwise_cons.1 h.apart).2, fun c hc => h.numbered c (List.mem_cons_of_mem _ hc)⟩

theorem apart_iff_networks (blocks : List Block) :
    (blocks.Pairwise fun b c => ¬ b.network.Meets c.network) ↔
      (blocks.map Block.network).Pairwise fun c d => ¬ c.Meets d := by
  rw [List.pairwise_map]

theorem numbered_assign {s : Cidr} {blocks : List Block} {place : Nat × Nat}
    (h : locate s blocks = some place) (o : Option String)
    (hn : ∀ b ∈ blocks, ∀ i o, b.owner? i = some o → i < b.count) :
    ∀ b ∈ assign place o blocks, ∀ i o, b.owner? i = some o → i < b.count := by
  obtain ⟨before, b, after, rfl, hb, hassign⟩ := exists_split_of_locate h
  rw [hassign]
  intro c hc j o' ho
  simp only [List.mem_append, List.mem_cons] at hc hn
  rcases hc with hc | rfl | hc
  · exact hn c (Or.inl hc) j o' ho
  · rw [Block.owner?_assign] at ho
    rw [Block.count_assign]
    split at ho
    · rename_i hj
      rw [hj]
      exact (Block.eq_hostSubnet_of_index? hb).1
    · exact hn b (Or.inr (Or.inl rfl)) j o' ho
  · exact hn c (Or.inr (Or.inr hc)) j o' ho

theorem Sound.assign {s : Cidr} {blocks : List Block} {place : Nat × Nat} (h : Sound blocks)
    (hp : locate s blocks = some place) (o : Option String) : Sound (assign place o blocks) where
  apart := by
    rw [apart_iff_networks, map_assign Block.network_assign, ← apart_iff_networks]
    exact h.apart
  numbered := numbered_assign hp o h.numbered

theorem Sound.eq_of_meets {blocks : List Block} (h : Sound blocks) {s t : Cidr}
    (hs : (locate s blocks).isSome = true) (ht : (locate t blocks).isSome = true) (hm : s.Meets t) :
    s = t := by
  obtain ⟨b, hb, i, hi⟩ := locate_isSome_iff.1 hs
  obtain ⟨c, hc, j, hj⟩ := locate_isSome_iff.1 ht
  by_cases hbc : b = c
  · subst hbc
    by_cases hij : i = j
    · exact Block.eq_of_index? hi (hij ▸ hj)
    · obtain ⟨hilt, rfl⟩ := Block.eq_hostSubnet_of_index? hi
      obtain ⟨hjlt, rfl⟩ := Block.eq_hostSubnet_of_index? hj
      exact absurd hm (b.not_meets_hostSubnet hilt hjlt hij)
  · have : Std.Symm fun b c : Block => ¬ b.network.Meets c.network := ⟨fun _ _ hn hm => hn hm.symm⟩
    exact absurd (Block.meets_of_index? hi hj hm) (h.apart.forall hb hc hbc)

/-! ## Lists -/

theorem allocated_hold (o x : String) (s : Cidr) (p : Pool) (blocks : List Block) :
    (⟨blocks, hold o s p.held⟩ : Pool).allocated x =
      if x = o then p.allocated o ++ [s] else p.allocated x := by
  unfold allocated hold
  rw [SortedMap.find?_insert]
  split <;> rfl

theorem find?_drop (o x : String) (s : Cidr) (held : SortedMap String (List Cidr)) :
    (drop o s held).find? x =
      if x = o then ((held.find? o).map (List.filter (· ≠ s))).filter (· ≠ []) else held.find? x := by
  unfold drop
  cases ho : held.find? o with
  | none =>
    show held.find? x = _
    by_cases hx : x = o
    · rw [if_pos hx, hx, ho]
      rfl
    · rw [if_neg hx]
  | some l =>
    simp only [Option.map_some]
    cases hl : l.filter (fun t => decide (t ≠ s)) with
    | nil => rw [SortedMap.find?_erase]; rfl
    | cons t rest => rw [SortedMap.find?_insert]; rfl

theorem allocated_drop (o x : String) (s : Cidr) (p : Pool) (blocks : List Block) :
    (⟨blocks, drop o s p.held⟩ : Pool).allocated x =
      if x = o then (p.allocated o).filter (· ≠ s) else p.allocated x := by
  unfold allocated
  rw [find?_drop]
  split
  · cases p.held.find? o with
    | none => rfl
    | some l =>
      simp only [Option.map_some, Option.getD_some]
      cases hl : l.filter (fun t => decide (t ≠ s)) with
      | nil => rfl
      | cons t rest => rfl
  · rfl

theorem Coherent.nodup_allocated {p : Pool} (h : Coherent p) (o : String) : (p.allocated o).Nodup := by
  unfold allocated
  cases ho : p.held.find? o with
  | none => exact List.nodup_nil
  | some l => exact (h.listed o l ho).1

/-! ## One reservation -/

theorem Coherent.reserve {p : Pool} (h : Coherent p) {s : Cidr} {place : Nat × Nat}
    (hp : locate s p.blocks = some place) (hfree : p.owner? s = none) (o : String) :
    Coherent ⟨assign place (some o) p.blocks, hold o s p.held⟩ where
  sound := h.sound.assign hp _
  mirrored := by
    intro x t
    rw [allocated_hold, owner?, ownerIn_assign hp]
    have hs : ∀ x, s ∉ p.allocated x := by
      intro x hx
      rw [h.mirrored, hfree] at hx
      cases hx
    by_cases ht : t = s
    · subst ht
      rw [if_pos rfl]
      by_cases hx : x = o
      · simp [hx]
      · simp [hx, hs x, Ne.symm hx]
    · rw [if_neg ht]
      by_cases hx : x = o
      · subst hx
        rw [if_pos rfl, List.mem_append, List.mem_singleton, h.mirrored]
        simp only [ht, or_false]
        rfl
      · rw [if_neg hx]
        exact h.mirrored x t
  listed := by
    intro x l hl
    unfold hold at hl
    rw [SortedMap.find?_insert] at hl
    split at hl
    · obtain rfl := Option.some.inj hl
      refine ⟨?_, by simp⟩
      have hs : s ∉ p.allocated o := by
        intro hx
        rw [h.mirrored, hfree] at hx
        cases hx
      show (p.allocated o ++ [s]).Nodup
      rw [List.nodup_append]
      refine ⟨h.nodup_allocated o, List.nodup_singleton s, ?_⟩
      intro a ha b hb hab
      rw [List.mem_singleton] at hb
      exact hs (hb ▸ hab ▸ ha)
    · exact h.listed x l hl

theorem Coherent.unreserve {p : Pool} (h : Coherent p) {s : Cidr} {place : Nat × Nat} {o : String}
    (hp : locate s p.blocks = some place) (hown : p.owner? s = some o) :
    Coherent ⟨assign place none p.blocks, drop o s p.held⟩ where
  sound := h.sound.assign hp _
  mirrored := by
    intro x t
    rw [allocated_drop, owner?, ownerIn_assign hp]
    by_cases ht : t = s
    · subst ht
      rw [if_pos rfl]
      by_cases hx : x = o
      · simp [hx]
      · have hnot : t ∉ p.allocated x := by
          rw [h.mirrored, hown]
          exact fun heq => hx (Option.some.inj heq).symm
        simp [hx, hnot]
    · rw [if_neg ht]
      by_cases hx : x = o
      · subst hx
        rw [if_pos rfl, List.mem_filter, h.mirrored]
        simp only [ne_eq, ht, not_false_eq_true, decide_true, and_true]
        rfl
      · rw [if_neg hx]
        exact h.mirrored x t
  listed := by
    intro x l hl
    rw [find?_drop] at hl
    split at hl
    · rw [Option.filter_eq_some_iff, Option.map_eq_some_iff] at hl
      obtain ⟨⟨l', ho, rfl⟩, hne⟩ := hl
      exact ⟨(h.listed o l' ho).1.filter _, by simpa using hne⟩
    · exact h.listed x l hl

end HostSubnets.Pool
