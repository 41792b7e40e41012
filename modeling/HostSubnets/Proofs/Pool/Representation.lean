import HostSubnets.Proofs.Pool.Operations
import Mathlib.Data.List.Perm.Basic

/-!
# What a pool is made of, after any operations

`representation_after` : after any sequence of operations on an empty pool, ranges share no address, every list
entry is a reserved number of exactly one range and the other way round, no address is held twice, and `usage`
counts the list entries. The count is by two lists without repetitions that hold the same subnets: those
reserved in the ranges (`reservedIn`) and those in the owners' lists (`heldSubnets`).
-/

namespace HostSubnets

def Block.subnet? (b : Block) (i : Nat) : Option Cidr :=
  if h : i < b.count then some (b.hostSubnet i h) else none

theorem Block.subnet?_eq_some_iff (b : Block) (i : Nat) (s : Cidr) :
    b.subnet? i = some s ↔ b.index? s = some i := by
  rw [Block.index?_eq_some_iff, Block.subnet?]
  split
  · rename_i h
    constructor
    · intro hs
      exact ⟨h, (Option.some.inj hs).symm⟩
    · rintro ⟨_, rfl⟩
      rfl
  · rename_i h
    constructor
    · intro hs
      cases hs
    · rintro ⟨hi, -⟩
      exact absurd hi h

namespace Pool

/-! ## Reservations of ranges -/

def reservedIn (blocks : List Block) : List Cidr :=
  blocks.flatMap fun b => b.used.keys.filterMap b.subnet?

theorem Sound.ownerIn_eq_some_iff {blocks : List Block} (h : Sound blocks) (s : Cidr) (o : String) :
    ownerIn s blocks = some o ↔ ∃ b ∈ blocks, ∃ i, b.index? s = some i ∧ b.owner? i = some o := by
  induction blocks with
  | nil => simp [ownerIn_nil]
  | cons b rest ih =>
    have hapart := (List.pairwise_cons.1 h.apart).1
    cases hb : b.index? s with
    | some i =>
      rw [ownerIn_cons_some hb]
      constructor
      · intro ho
        exact ⟨b, List.mem_cons_self, i, hb, ho⟩
      · rintro ⟨c, hc, j, hj, ho⟩
        rcases List.mem_cons.1 hc with rfl | hc
        · obtain rfl : i = j := Option.some.inj (hb.symm.trans hj)
          exact ho
        · exact absurd (Block.meets_of_index? hb hj s.meets_self) (hapart c hc)
    | none =>
      rw [ownerIn_cons_none hb, ih h.of_cons]
      constructor
      · rintro ⟨c, hc, hi⟩
        exact ⟨c, List.mem_cons_of_mem _ hc, hi⟩
      · rintro ⟨c, hc, i, hi, ho⟩
        rcases List.mem_cons.1 hc with rfl | hc
        · rw [hb] at hi
          cases hi
        · exact ⟨c, hc, i, hi, ho⟩

theorem mem_reservedIn {blocks : List Block} {s : Cidr} :
    s ∈ reservedIn blocks ↔ ∃ b ∈ blocks, ∃ i, b.index? s = some i ∧ ∃ o, b.owner? i = some o := by
  simp only [reservedIn, List.mem_flatMap, List.mem_filterMap, SortedMap.mem_keys,
    Block.subnet?_eq_some_iff, Block.owner?]
  constructor
  · rintro ⟨b, hb, i, ho, hi⟩
    exact ⟨b, hb, i, hi, ho⟩
  · rintro ⟨b, hb, i, hi, ho⟩
    exact ⟨b, hb, i, ho, hi⟩

theorem Sound.nodup_reservedIn {blocks : List Block} (h : Sound blocks) : (reservedIn blocks).Nodup := by
  unfold reservedIn
  rw [List.nodup_flatMap]
  constructor
  · intro b _
    refine (SortedMap.nodup_keys b.used).filterMap fun i j s hi hj => ?_
    rw [Option.mem_def, Block.subnet?_eq_some_iff] at hi hj
    exact Option.some.inj (hi.symm.trans hj)
  · refine h.apart.imp fun {b c} hapart s hb hc => ?_
    obtain ⟨i, -, hi⟩ := List.mem_filterMap.1 hb
    obtain ⟨j, -, hj⟩ := List.mem_filterMap.1 hc
    rw [Block.subnet?_eq_some_iff] at hi hj
    exact hapart (Block.meets_of_index? hi hj s.meets_self)

theorem usageOf_cons (b : Block) (rest : List Block) (f : Family) :
    usageOf (b :: rest) f = (if b.network.family = f then b.used.size else 0) + usageOf rest f := by
  have hadd : ∀ (l : List Block) (n : Nat),
      l.foldl (fun sum c => if c.network.family = f then sum + c.used.size else sum) n =
        n + usageOf l f := by
    intro l
    induction l with
    | nil => exact fun n => rfl
    | cons c l ih =>
      intro n
      have hcons : usageOf (c :: l) f = (if c.network.family = f then 0 + c.used.size else 0) + usageOf l f := by
        rw [← ih]
        rfl
      rw [List.foldl_cons, ih, hcons]
      split <;> omega
  rw [usageOf, List.foldl_cons, hadd, Nat.zero_add]

theorem Sound.length_reserved {blocks : List Block} (h : Sound blocks) {b : Block} (hb : b ∈ blocks) :
    (b.used.keys.filterMap b.subnet?).length = b.used.size := by
  have hall : ∀ i ∈ b.used.keys, (b.subnet? i).isSome = true := by
    intro i hi
    obtain ⟨o, ho⟩ := SortedMap.mem_keys.1 hi
    rw [Block.subnet?, dif_pos (h.numbered b hb i o ho)]
    rfl
  rw [List.filterMap_length_eq_length.2 hall, SortedMap.keys, List.length_map, SortedMap.size]

theorem family_reserved (b : Block) {s : Cidr} (hs : s ∈ b.used.keys.filterMap b.subnet?) :
    s.family = b.network.family := by
  obtain ⟨i, -, hi⟩ := List.mem_filterMap.1 hs
  exact Block.family_of_index? ((b.subnet?_eq_some_iff i s).1 hi)

theorem Sound.usageOf_eq {blocks : List Block} (h : Sound blocks) (f : Family) :
    usageOf blocks f = ((reservedIn blocks).filter fun s => s.family = f).length := by
  induction blocks with
  | nil => rfl
  | cons b rest ih =>
    have hcons : reservedIn (b :: rest) = b.used.keys.filterMap b.subnet? ++ reservedIn rest := rfl
    rw [usageOf_cons, ih h.of_cons, hcons, List.filter_append, List.length_append]
    congr 1
    split
    · rename_i hf
      rw [List.filter_eq_self.2 fun s hs => by simp [family_reserved b hs, hf],
        h.length_reserved List.mem_cons_self]
    · rename_i hf
      rw [List.filter_eq_nil_iff.2 fun s hs => by simp [family_reserved b hs, hf]]
      rfl

/-! ## Lists of owners -/

def heldSubnets (p : Pool) : List Cidr := p.held.values.flatten

theorem mem_heldSubnets {p : Pool} {s : Cidr} : s ∈ p.heldSubnets ↔ ∃ o, s ∈ p.allocated o := by
  simp only [heldSubnets, List.mem_flatten, SortedMap.mem_values, allocated]
  constructor
  · rintro ⟨l, ⟨o, ho⟩, hs⟩
    exact ⟨o, by rw [ho]; exact hs⟩
  · rintro ⟨o, hs⟩
    cases ho : p.held.find? o with
    | none =>
      rw [ho] at hs
      cases hs
    | some l =>
      rw [ho] at hs
      exact ⟨l, ⟨o, ho⟩, hs⟩

theorem Coherent.nodup_heldSubnets {p : Pool} (h : Coherent p) : p.heldSubnets.Nodup := by
  unfold heldSubnets
  rw [List.nodup_flatten]
  constructor
  · intro l hl
    obtain ⟨o, ho⟩ := SortedMap.mem_values.1 hl
    exact (h.listed o l ho).1
  · unfold SortedMap.values
    rw [List.pairwise_map]
    refine p.held.sorted.imp_of_mem fun {a b} ha hb hlt s hsa hsb => ?_
    have hmem : ∀ e ∈ p.held.entries, s ∈ e.2 → p.owner? s = some e.1 := by
      intro e he hs
      rw [← h.mirrored, allocated, (SortedMap.find?_eq_some_iff p.held e.1 e.2).2 he]
      exact hs
    have hab : a.1 = b.1 := Option.some.inj ((hmem a ha hsa).symm.trans (hmem b hb hsb))
    rw [hab] at hlt
    exact Std.lt_irrefl hlt

/-- The lists hold exactly the reserved subnets. -/
theorem Coherent.perm_heldSubnets {p : Pool} (h : Coherent p) :
    (reservedIn p.blocks).Perm p.heldSubnets := by
  refine (List.perm_ext_iff_of_nodup h.sound.nodup_reservedIn h.nodup_heldSubnets).2 fun s => ?_
  rw [mem_heldSubnets, mem_reservedIn]
  constructor
  · rintro ⟨b, hb, i, hi, o, ho⟩
    refine ⟨o, ?_⟩
    rw [h.mirrored, owner?, h.sound.ownerIn_eq_some_iff]
    exact ⟨b, hb, i, hi, ho⟩
  · rintro ⟨o, hs⟩
    rw [h.mirrored, owner?, h.sound.ownerIn_eq_some_iff] at hs
    obtain ⟨b, hb, i, hi, ho⟩ := hs
    exact ⟨b, hb, i, hi, o, ho⟩

theorem Coherent.eq_of_meets {p : Pool} (h : Coherent p) {o x : String} {s t : Cidr}
    (hs : s ∈ p.allocated o) (ht : t ∈ p.allocated x) (hm : s.Meets t) : o = x ∧ s = t := by
  rw [h.mirrored] at hs ht
  obtain rfl := h.sound.eq_of_meets (hosts_of_owner? hs) (hosts_of_owner? ht) hm
  exact ⟨Option.some.inj (hs.symm.trans ht), rfl⟩

theorem Coherent.usage_get {p : Pool} (h : Coherent p) (f : Family) :
    p.usage.get f = (p.heldSubnets.filter fun s => s.family = f).length := by
  have hget : p.usage.get f = usageOf p.blocks f := by cases f <;> rfl
  rw [hget, h.sound.usageOf_eq, (h.perm_heldSubnets.filter _).length_eq]

/-! ## Any run -/

/-- **Ranges and lists mirror each other after any operations on an empty pool.** Same-family ranges have no
common address; an owner's list holds a subnet exactly if a range has it under a number that is reserved for the
owner; lists are neither empty nor repeat a subnet; entries with a common address are one entry of one owner;
usage counts the entries of all lists. -/
theorem representation_after (requests : List Request) :
    let p := empty.after requests
    (p.blocks.Pairwise fun b c => b.network.family = c.network.family →
      ∀ a, ¬ (b.network.covers a = true ∧ c.network.covers a = true)) ∧
    (∀ o s, s ∈ p.allocated o ↔
      ∃ b ∈ p.blocks, ∃ i, b.index? s = some i ∧ b.owner? i = some o) ∧
    (∀ o l, p.held.find? o = some l → l.Nodup ∧ l ≠ []) ∧
    (∀ o x s t, s ∈ p.allocated o → t ∈ p.allocated x → (o ≠ x ∨ s ≠ t) → s.family = t.family →
      ∀ a, ¬ (s.covers a = true ∧ t.covers a = true)) ∧
    ∀ f, p.usage.get f = (p.held.values.flatten.filter fun s => s.family = f).length := by
  intro p
  have h : Coherent p := coherent_empty.after requests
  refine ⟨?_, fun o s => ?_, h.listed, ?_, h.usage_get⟩
  · exact h.sound.apart.imp fun hapart hf a ha => hapart ⟨hf, a, ha⟩
  · rw [h.mirrored, owner?, h.sound.ownerIn_eq_some_iff]
  · intro o x s t hs ht hne hf a ha
    obtain ⟨hox, hst⟩ := h.eq_of_meets hs ht ⟨hf, a, ha⟩
    exact hne.elim (fun hn => hn hox) (fun hn => hn hst)

end Pool

end HostSubnets
