import HostSubnets.Metrics
import HostSubnets.Proofs.Pool.Lists
import HostSubnets.Proofs.Pool.Registration
import HostSubnets.Proofs.Pool.Words

/-!
# The figures of a pool

A range is divided into `2 ^ (hostLength - length)` host subnets, and those of all ranges of a family are their `total`,
which has no limit. What a pool counts and what a gauge shows is the total, limited several times on the way: each range
and each sum to 128 bits, the result to 64 bits, the gauge to a signed number of 64 bits. Only the last limit tells
(`foldl_min_total`, `count_get_eq`). The ranges are those that were registered (`Coherent.ranges_after`), so that the
count is changed by registrations only (`Coherent.exists_addRange_of_count_ne`). All of it together is `figures_exact`.
-/

namespace HostSubnets

/-! ## Words that take the largest value in place of a larger one -/

namespace Word

/-- The sum of two words, or the largest word if the sum is none. -/
def addLimited (x y : Word) : Word := if BitVec.uaddOverflow x y = true then BitVec.allOnes 128 else x + y

theorem toNat_addLimited (x y : Word) : (x.addLimited y).toNat = min (x.toNat + y.toNat) Block.maxCapacity := by
  have hmax : Block.maxCapacity = 2 ^ 128 - 1 := rfl
  unfold addLimited
  split
  · rename_i hover
    have hlarge : 2 ^ 128 ≤ x.toNat + y.toNat := by simpa [BitVec.uaddOverflow] using hover
    rw [BitVec.toNat_allOnes, hmax]
    omega
  · rename_i hfits
    have hsmall : x.toNat + y.toNat < 2 ^ 128 := by simpa [BitVec.uaddOverflow] using hfits
    rw [BitVec.toNat_add_of_not_uaddOverflow hfits, hmax]
    omega

def narrow (x : Word) : BitVec 64 := if x.toNat < 2 ^ 64 then x.setWidth 64 else BitVec.allOnes 64

theorem toNat_narrow (x : Word) : x.narrow.toNat = min x.toNat Pool.maxCount := by
  have hmax : Pool.maxCount = 2 ^ 64 - 1 := rfl
  unfold narrow
  split
  · rename_i hlt
    rw [BitVec.toNat_setWidth, Nat.mod_eq_of_lt hlt, hmax]
    omega
  · rename_i hge
    rw [BitVec.toNat_allOnes, hmax]
    omega

end Word

/-- The word of 64 bits as the number that a gauge shows, whose first bit is its sign. -/
def Gauges.signed (x : BitVec 64) : BitVec 64 := if x.msb = true then BitVec.intMax 64 else x

theorem Gauges.toInt_signed (x : BitVec 64) : (signed x).toInt = min x.toNat limit := by
  have hlimit : limit = 2 ^ 63 - 1 := rfl
  have hmsb := BitVec.msb_eq_decide x
  have hlt := x.isLt
  unfold signed
  split
  · rename_i hlarge
    rw [hlarge, eq_comm, decide_eq_true_iff] at hmsb
    have hmax : (BitVec.intMax 64).toInt = 2 ^ 63 - 1 := by decide
    rw [hmax, hlimit]
    omega
  · rename_i hsmall
    rw [Bool.not_eq_true] at hsmall
    rw [BitVec.toInt_eq_toNat_of_msb hsmall, hlimit]
    rw [hsmall, eq_comm, decide_eq_false_iff_not] at hmsb
    omega

def Block.range (b : Block) : Cidr × Nat := (b.network, b.hostLength)

namespace Pool

variable {p q : Pool}

/-! ## The total of some ranges -/

/-- Host subnets of a family in ranges, each with the length of its host subnets. -/
def total (f : Family) (ranges : List (Cidr × Nat)) : Nat :=
  ((ranges.filter fun range => range.1.family = f).map fun range => 2 ^ (range.2 - range.1.length)).sum

theorem total_cons (f : Family) (range : Cidr × Nat) (ranges : List (Cidr × Nat)) :
    total f (range :: ranges) =
      (if range.1.family = f then 2 ^ (range.2 - range.1.length) else 0) + total f ranges := by
  unfold total
  by_cases hf : range.1.family = f
  · rw [List.filter_cons_of_pos (by simpa using hf), if_pos hf, List.map_cons, List.sum_cons]
  · rw [List.filter_cons_of_neg (by simpa using hf), if_neg hf, Nat.zero_add]

def firstNamed (range : Cidr × Nat) : Cidr × Nat := (range.1.masked, range.2)

theorem total_firstNamed (f : Family) (ranges : List (Cidr × Nat)) :
    total f (ranges.map firstNamed) = total f ranges := by
  induction ranges with
  | nil => rfl
  | cons range rest ih =>
    rw [List.map_cons, total_cons, total_cons, ih]
    rfl

theorem total_map_range_cons (f : Family) (b : Block) (rest : List Block) :
    total f ((b :: rest).map Block.range) =
      (if b.network.family = f then b.count else 0) + total f (rest.map Block.range) := total_cons f b.range _

def ranges (p : Pool) : List (Cidr × Nat) := p.blocks.map Block.range

/-! ## Sums with limits -/

def countWord (blocks : List Block) (f : Family) : Word :=
  blocks.foldl (fun sum b => if b.network.family = f then sum.addLimited b.capacityWord else sum) 0

/-- **Limits on the way make no difference.** If every range and every sum is limited, the result is the limited
total. -/
theorem foldl_min_total (f : Family) (blocks : List Block) {start : Nat} (hstart : start ≤ Block.maxCapacity) :
    blocks.foldl (fun sum b => if b.network.family = f then min (sum + b.capacity) Block.maxCapacity else sum) start =
      min (start + total f (blocks.map Block.range)) Block.maxCapacity := by
  induction blocks generalizing start with
  | nil => exact (Nat.min_eq_left hstart).symm
  | cons b rest ih =>
    rw [List.foldl_cons, total_map_range_cons]
    by_cases hf : b.network.family = f
    · rw [if_pos hf, if_pos hf, ih (Nat.min_le_right _ _), Block.capacity]
      omega
    · rw [if_neg hf, if_neg hf, ih hstart, Nat.zero_add]

theorem toNat_foldl_addLimited (f : Family) (blocks : List Block) (start : Word) :
    (blocks.foldl (fun sum b => if b.network.family = f then sum.addLimited b.capacityWord else sum) start).toNat =
      blocks.foldl (fun sum b => if b.network.family = f then min (sum + b.capacity) Block.maxCapacity else sum)
        start.toNat := by
  induction blocks generalizing start with
  | nil => rfl
  | cons b rest ih =>
    rw [List.foldl_cons, List.foldl_cons, ih]
    by_cases hf : b.network.family = f
    · rw [if_pos hf, if_pos hf, Word.toNat_addLimited, b.toNat_capacityWord]
    · rw [if_neg hf, if_neg hf]

theorem toNat_narrow_countWord (blocks : List Block) (f : Family) :
    (countWord blocks f).narrow.toNat = countOf blocks f := by
  rw [Word.toNat_narrow, countWord, toNat_foldl_addLimited]
  rfl

theorem countOf_eq (p : Pool) (f : Family) : countOf p.blocks f = min (total f p.ranges) maxCount := by
  have hbits : maxCount ≤ Block.maxCapacity := by decide
  have hsum := foldl_min_total f p.blocks (Nat.zero_le Block.maxCapacity)
  rw [Nat.zero_add] at hsum
  show min (p.blocks.foldl _ 0) maxCount = _
  rw [hsum, Nat.min_assoc, Nat.min_eq_right hbits]
  rfl

/-! ## Reservations -/

theorem size_used_le {b : Block} (h : ∀ i o, b.owner? i = some o → i < b.count) : b.used.size ≤ b.count := by
  have hsub : b.used.keys ⊆ List.range b.count := by
    intro i hi
    obtain ⟨o, ho⟩ := SortedMap.mem_keys.1 hi
    exact List.mem_range.2 (h i o ho)
  have hlength := (b.used.nodup_keys.subperm hsub).length_le
  rwa [List.length_range, SortedMap.keys, List.length_map] at hlength

theorem Sound.usageOf_le {blocks : List Block} (h : Sound blocks) (f : Family) :
    usageOf blocks f ≤ total f (blocks.map Block.range) := by
  induction blocks with
  | nil => exact Nat.le_refl 0
  | cons b rest ih =>
    have hsize := size_used_le (h.numbered b List.mem_cons_self)
    have hrest := ih h.of_cons
    rw [usageOf_cons, total_map_range_cons]
    split <;> omega

/-! ## Registrations -/

/-- The range that a request registers: none if it is another request or fails. -/
def Request.range? (p : Pool) : Request → Option (Cidr × Nat)
  | .addRange network hostLength =>
    match (p.addRange network hostLength).1 with
    | .ok () => some (network, hostLength)
    | .error _ => none
  | _ => none

def registered : List Request → Pool → List (Cidr × Nat)
  | [], _ => []
  | request :: rest, p => (request.range? p).toList ++ registered rest (request.perform p).2

theorem ranges_eq_of_layout (h : q.layout = p.layout) : q.ranges = p.ranges := by
  have hmap : ∀ r : Pool, r.ranges = r.layout.map Block.range := by
    intro r
    rw [layout, List.map_map]
    rfl
  rw [hmap, hmap, h]

theorem Coherent.ranges_perform (hp : p.Coherent) (request : Request) :
    (request.perform p).2.ranges = p.ranges ++ (request.range? p).toList.map firstNamed := by
  have howner : ∀ {o : String}, request.IsBy o → request.range? p = none →
      (request.perform p).2.ranges = p.ranges ++ (request.range? p).toList.map firstNamed := by
    intro o hby hnone
    rw [hnone, ranges_eq_of_layout (hp.layout_perform hby)]
    exact (List.append_nil _).symm
  cases request with
  | addRange network hostLength =>
    show (p.addRange network hostLength).2.ranges = _
    cases ha : (p.addRange network hostLength).1 with
    | ok done =>
      obtain ⟨b, hnetwork, hlength, -, hadded⟩ := addRange_of_ok ha
      rw [hadded, Request.range?, ha, ranges, List.map_append, List.map_singleton, Block.range, hnetwork, hlength]
      rfl
    | error e =>
      rw [addRange_of_error ha, Request.range?, ha]
      exact (List.append_nil _).symm
  | allocate o f => exact howner (o := o) rfl rfl
  | mark o l => exact howner (o := o) rfl rfl
  | release o l => exact howner (o := o) rfl rfl
  | releaseAll o => exact howner (o := o) rfl rfl
  | allocated o => exact howner (o := o) trivial rfl
  | count => exact (List.append_nil _).symm
  | usage => exact (List.append_nil _).symm

theorem Coherent.ranges_after (hp : p.Coherent) (requests : List Request) :
    (p.after requests).ranges = p.ranges ++ (registered requests p).map firstNamed := by
  induction requests generalizing p with
  | nil => exact (List.append_nil _).symm
  | cons request rest ih =>
    show ((request.perform p).2.after rest).ranges = _
    rw [ih (hp.perform request), hp.ranges_perform, registered, List.map_append, List.append_assoc]

theorem count_get_eq (p : Pool) (f : Family) : p.count.get f = min (total f p.ranges) maxCount := by
  rw [← countOf_eq]
  cases f <;> rfl

theorem count_eq_of_ranges (h : q.ranges = p.ranges) : q.count = p.count := by
  have hof : countOf q.blocks = countOf p.blocks := by
    funext f
    rw [countOf_eq, countOf_eq, h]
  rw [count, count, hof]

/-- The count is told by the ranges, so that only a registration can change it. -/
theorem Coherent.exists_addRange_of_count_ne (hp : p.Coherent) {request : Request}
    (h : (request.perform p).2.count ≠ p.count) :
    ∃ network hostLength, request = .addRange network hostLength ∧ (p.addRange network hostLength).1 = .ok () := by
  have hranges := hp.ranges_perform request
  cases hrange : request.range? p with
  | none =>
    rw [hrange] at hranges
    exact absurd (count_eq_of_ranges (hranges.trans (List.append_nil _))) h
  | some range =>
    unfold Request.range? at hrange
    split at hrange
    · rename_i network hostLength
      cases ha : (p.addRange network hostLength).1 with
      | ok done => exact ⟨network, hostLength, rfl, ha⟩
      | error e =>
        rw [ha] at hrange
        cases hrange
    · cases hrange

/-! ## What is shown -/

/-- **The figures of a pool are exact up to their limits.** After any operations, the count of a family is the sum of
`2 ^ (hostLength - length)` over the ranges that were registered, as far as 64 bits can tell, however many and however
large they are. Words that are limited at every step say the same. No operation changes the count unless it registers
a range, no more subnets are in use than the sum, also where it is beyond the count, and the gauge of the family takes
the count, as far as a signed number of 64 bits can tell. -/
theorem figures_exact (requests : List Request) (f : Family) :
    let p := empty.after requests
    let ranges := (registered requests empty).filter fun range => range.1.family = f
    let sum := (ranges.map fun range => 2 ^ (range.2 - range.1.length)).sum
    (p.count.get f = min (2 ^ 64 - 1) sum ∧ (countWord p.blocks f).narrow.toNat = p.count.get f) ∧
      (∀ request : Request, (request.perform p).2.count ≠ p.count →
        ∃ network hostLength, request = .addRange network hostLength ∧ (p.addRange network hostLength).1 = .ok ()) ∧
      p.usage.get f ≤ sum ∧
      ∀ g : Gauges, ∃ figures, g.recordCapacity p.count = { g with capacity := some figures } ∧
        figures.get f = min (p.count.get f) (2 ^ 63 - 1) ∧ figures.get f = min (2 ^ 63 - 1) sum ∧
        (Gauges.signed (countWord p.blocks f).narrow).toInt = figures.get f := by
  intro p ranges sum
  have hp : p.Coherent := coherent_empty.after requests
  have hsum : total f p.ranges = sum := by
    have hranges : p.ranges = (registered requests empty).map firstNamed := coherent_empty.ranges_after requests
    rw [hranges]
    exact total_firstNamed f _
  have hcount : p.count.get f = min (2 ^ 64 - 1) sum := by
    rw [count_get_eq, hsum, Nat.min_comm]
    rfl
  have hword : (countWord p.blocks f).narrow.toNat = p.count.get f := by
    rw [toNat_narrow_countWord]
    cases f <;> rfl
  have husage : p.usage.get f ≤ sum := by
    rw [usage_get_eq, ← hsum]
    exact hp.sound.usageOf_le f
  refine ⟨⟨hcount, hword⟩, fun request => hp.exists_addRange_of_count_ne, husage, fun g => ?_⟩
  have hclamp : (Gauges.clamp p.count).get f = min (p.count.get f) (2 ^ 63 - 1) := by cases f <;> rfl
  refine ⟨Gauges.clamp p.count, rfl, hclamp, by omega, ?_⟩
  rw [Gauges.toInt_signed, hword, hclamp, Gauges.limit]

-- All addresses of both families, each one a host subnet. The sum is 2 ^ 128 for IPv6, beyond words of all sizes.
example :
    let p := empty.after
      [.addRange ⟨.v4, 9, 0, by decide, by decide⟩ 32, .addRange ⟨.v6, 9, 0, by decide, by decide⟩ 128]
    p.count = ⟨2 ^ 32, 2 ^ 64 - 1⟩ ∧ (Gauges.unset.recordCapacity p.count).capacity = some ⟨2 ^ 32, 2 ^ 63 - 1⟩ := by
  decide

end Pool

end HostSubnets
