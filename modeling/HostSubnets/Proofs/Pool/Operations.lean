import HostSubnets.Proofs.Pool.Coherence

/-!
# What the operations of a pool do to its owners

Each operation is described by the owners of all subnets before and after it: `owner?_mark`, `owner?_release`,
`owner?_releaseAll` and `allocate_cases`. None but `addRange` changes which subnets there are (`Hosts`), and all
of them keep a pool coherent (`Coherent.perform`, and `Coherent.after` for any run of them).
-/

namespace HostSubnets.Pool

/-! ## One subnet -/

theorem exists_place {p : Pool} {s : Cidr} (h : p.Hosts s) :
    ∃ place, locate s p.blocks = some place ∧ ownerAt p.blocks place = p.owner? s := by
  obtain ⟨place, hp⟩ := Option.isSome_iff_exists.1 h
  refine ⟨place, hp, ?_⟩
  rw [owner?, ownerIn, hp]
  rfl

theorem markOne_of_hosts (o : String) {p : Pool} {s : Cidr} (h : p.Hosts s) :
    ∃ place, locate s p.blocks = some place ∧
      markOne o p s = match p.owner? s with
        | some x => if x = o then .ok p else .error (.alreadyAllocated s x)
        | none => .ok ⟨assign place (some o) p.blocks, hold o s p.held⟩ := by
  obtain ⟨place, hp, hat⟩ := exists_place h
  refine ⟨place, hp, ?_⟩
  unfold markOne
  rw [hp]
  simp only [hat]
  rfl

theorem markOne_of_not_hosts (o : String) {p : Pool} {s : Cidr} (h : ¬ p.Hosts s) :
    markOne o p s = .error (.outOfRange s) := by
  have hp : locate s p.blocks = none := by simpa [Hosts] using h
  unfold markOne
  rw [hp]

theorem releaseOne_of_hosts (o : String) {p : Pool} {s : Cidr} (h : p.Hosts s) :
    ∃ place, locate s p.blocks = some place ∧
      releaseOne o p s = if p.owner? s = some o then .ok ⟨assign place none p.blocks, drop o s p.held⟩
        else .error (.notOwned s o) := by
  obtain ⟨place, hp, hat⟩ := exists_place h
  refine ⟨place, hp, ?_⟩
  unfold releaseOne
  rw [hp]
  simp only [hat]
  rfl

theorem releaseOne_of_not_hosts (o : String) {p : Pool} {s : Cidr} (h : ¬ p.Hosts s) :
    releaseOne o p s = .error (.outOfRange s) := by
  have hp : locate s p.blocks = none := by simpa [Hosts] using h
  unfold releaseOne
  rw [hp]

/-- Reserving one subnet: it is the owner's already, or it is free and reserved now, or that fails. -/
theorem markOne_cases (o : String) (p : Pool) (s : Cidr) :
    (p.owner? s = some o ∧ markOne o p s = .ok p) ∨
      (∃ place, locate s p.blocks = some place ∧ p.owner? s = none ∧
        markOne o p s = .ok ⟨assign place (some o) p.blocks, hold o s p.held⟩) ∨
      ((¬ p.Hosts s ∨ ∃ x, x ≠ o ∧ p.owner? s = some x) ∧ ∃ e, markOne o p s = .error e) := by
  by_cases hs : p.Hosts s
  · obtain ⟨place, hp, hmark⟩ := markOne_of_hosts o hs
    rw [hmark]
    cases hown : p.owner? s with
    | none => exact Or.inr (Or.inl ⟨place, hp, rfl, rfl⟩)
    | some x =>
      by_cases hx : x = o
      · exact Or.inl ⟨congrArg some hx, if_pos hx⟩
      · exact Or.inr (Or.inr ⟨Or.inr ⟨x, hx, rfl⟩, _, if_neg hx⟩)
  · exact Or.inr (Or.inr ⟨Or.inl hs, _, markOne_of_not_hosts o hs⟩)

/-- Giving back one subnet: the owner holds it and it is free now, or that fails. -/
theorem releaseOne_cases (o : String) (p : Pool) (s : Cidr) :
    (∃ place, locate s p.blocks = some place ∧ p.owner? s = some o ∧
        releaseOne o p s = .ok ⟨assign place none p.blocks, drop o s p.held⟩) ∨
      (p.owner? s ≠ some o ∧ ∃ e, releaseOne o p s = .error e) := by
  by_cases hs : p.Hosts s
  · obtain ⟨place, hp, hrelease⟩ := releaseOne_of_hosts o hs
    by_cases hown : p.owner? s = some o
    · exact Or.inl ⟨place, hp, hown, hrelease.trans (if_pos hown)⟩
    · exact Or.inr ⟨hown, _, hrelease.trans (if_neg hown)⟩
  · exact Or.inr ⟨fun hown => hs (hosts_of_owner? hown), _, releaseOne_of_not_hosts o hs⟩

def attempted (attempt : Pool → Cidr → Except PoolError Pool) (p : Pool) (s : Cidr) : Pool :=
  match attempt p s with
  | .ok p' => p'
  | .error _ => p

theorem attemptAll_snd (attempt : Pool → Cidr → Except PoolError Pool) (l : List Cidr) (p : Pool) :
    (attemptAll attempt l p).2 = l.foldl (attempted attempt) p := by
  induction l generalizing p with
  | nil => rfl
  | cons s rest ih =>
    rw [List.foldl_cons, attemptAll, attempted]
    cases attempt p s with
    | ok p' => exact ih p'
    | error e => exact ih p

theorem hosts_assign {p : Pool} {place : Nat × Nat} {o : Option String} {held : SortedMap String (List Cidr)}
    (s : Cidr) : (⟨assign place o p.blocks, held⟩ : Pool).Hosts s ↔ p.Hosts s := by
  unfold Hosts
  rw [locate_assign]

section Mark

variable (o : String) (p : Pool) (s : Cidr)

theorem owner?_attempted_markOne (t : Cidr) :
    (attempted (markOne o) p s).owner? t =
      if t = s ∧ p.Hosts s ∧ p.owner? s = none then some o else p.owner? t := by
  unfold attempted
  rcases markOne_cases o p s with ⟨hown, hm⟩ | ⟨place, hp, hfree, hm⟩ | ⟨hno, e, hm⟩
  · simp only [hm, hown, reduceCtorEq, and_false, if_false]
  · have hs : p.Hosts s := by simp [Hosts, hp]
    simp only [hm, hs, hfree, and_true]
    exact ownerIn_assign hp _ t
  · have hnot : ¬ (t = s ∧ p.Hosts s ∧ p.owner? s = none) := by
      rintro ⟨-, hs, hfree⟩
      rcases hno with h | ⟨x, -, h⟩
      · exact h hs
      · rw [hfree] at h
        cases h
    simp only [hm, if_neg hnot]

theorem hosts_attempted_markOne (t : Cidr) : (attempted (markOne o) p s).Hosts t ↔ p.Hosts t := by
  unfold attempted
  rcases markOne_cases o p s with ⟨-, hm⟩ | ⟨place, -, -, hm⟩ | ⟨-, e, hm⟩ <;> rw [hm]
  exact hosts_assign t

variable {p} in
theorem Coherent.attempted_markOne (h : Coherent p) : Coherent (attempted (markOne o) p s) := by
  unfold attempted
  rcases markOne_cases o p s with ⟨-, hm⟩ | ⟨place, hp, hfree, hm⟩ | ⟨-, e, hm⟩ <;> rw [hm]
  · exact h
  · exact h.reserve hp hfree o
  · exact h

theorem owner?_attempted_releaseOne (t : Cidr) :
    (attempted (releaseOne o) p s).owner? t =
      if t = s ∧ p.owner? s = some o then none else p.owner? t := by
  unfold attempted
  rcases releaseOne_cases o p s with ⟨place, hp, hown, hm⟩ | ⟨hown, e, hm⟩
  · simp only [hm, hown, and_true]
    exact ownerIn_assign hp _ t
  · simp only [hm, hown, and_false, if_false]

theorem hosts_attempted_releaseOne (t : Cidr) :
    (attempted (releaseOne o) p s).Hosts t ↔ p.Hosts t := by
  unfold attempted
  rcases releaseOne_cases o p s with ⟨place, -, -, hm⟩ | ⟨-, e, hm⟩ <;> rw [hm]
  exact hosts_assign t

variable {p} in
theorem Coherent.attempted_releaseOne (h : Coherent p) : Coherent (attempted (releaseOne o) p s) := by
  unfold attempted
  rcases releaseOne_cases o p s with ⟨place, hp, hown, hm⟩ | ⟨-, e, hm⟩ <;> rw [hm]
  · exact h.unreserve hp hown
  · exact h

end Mark

/-! ## Lists of subnets -/

theorem hosts_mark (o : String) (l : List Cidr) (p : Pool) (t : Cidr) :
    (p.mark o l).2.Hosts t ↔ p.Hosts t := by
  rw [mark, attemptAll_snd]
  induction l generalizing p with
  | nil => rfl
  | cons s rest ih => rw [List.foldl_cons, ih, hosts_attempted_markOne]

theorem owner?_mark (o : String) (l : List Cidr) (p : Pool) (t : Cidr) :
    (p.mark o l).2.owner? t = if t ∈ l ∧ p.Hosts t ∧ p.owner? t = none then some o else p.owner? t := by
  rw [mark, attemptAll_snd]
  induction l generalizing p with
  | nil => simp
  | cons s rest ih =>
    rw [List.foldl_cons, ih, owner?_attempted_markOne]
    simp only [hosts_attempted_markOne]
    by_cases hts : t = s
    · subst hts
      by_cases hs : p.Hosts t ∧ p.owner? t = none
      · simp [hs.1, hs.2]
      · simp [hs]
    · simp [hts]

theorem Coherent.mark {p : Pool} (h : Coherent p) (o : String) (l : List Cidr) :
    Coherent (p.mark o l).2 := by
  rw [Pool.mark, attemptAll_snd]
  induction l generalizing p with
  | nil => exact h
  | cons s rest ih => exact ih (h.attempted_markOne o s)

theorem hosts_release (o : String) (l : List Cidr) (p : Pool) (t : Cidr) :
    (p.release o l).2.Hosts t ↔ p.Hosts t := by
  rw [release, attemptAll_snd]
  induction l generalizing p with
  | nil => rfl
  | cons s rest ih => rw [List.foldl_cons, ih, hosts_attempted_releaseOne]

theorem owner?_release (o : String) (l : List Cidr) (p : Pool) (t : Cidr) :
    (p.release o l).2.owner? t = if t ∈ l ∧ p.owner? t = some o then none else p.owner? t := by
  rw [release, attemptAll_snd]
  induction l generalizing p with
  | nil => simp
  | cons s rest ih =>
    rw [List.foldl_cons, ih, owner?_attempted_releaseOne]
    by_cases hts : t = s
    · subst hts
      by_cases hs : p.owner? t = some o
      · simp [hs]
      · simp [hs]
    · simp [hts]

theorem Coherent.release {p : Pool} (h : Coherent p) (o : String) (l : List Cidr) :
    Coherent (p.release o l).2 := by
  rw [Pool.release, attemptAll_snd]
  induction l generalizing p with
  | nil => exact h
  | cons s rest ih => exact ih (h.attempted_releaseOne o s)

theorem mark_ok_iff (o : String) (l : List Cidr) (p : Pool) :
    (p.mark o l).1 = .ok () ↔ ∀ s ∈ l, p.Hosts s ∧ (p.owner? s = none ∨ p.owner? s = some o) := by
  unfold mark
  induction l generalizing p with
  | nil => simp [attemptAll]
  | cons s rest ih =>
    rw [attemptAll, List.forall_mem_cons]
    have hafter := owner?_attempted_markOne o p s
    have hhosts := hosts_attempted_markOne o p s
    unfold attempted at hafter hhosts
    rcases markOne_cases o p s with ⟨hown, hm⟩ | ⟨place, hp, hfree, hm⟩ | ⟨hno, e, hm⟩
    · simp only [hm, ih, hown, hosts_of_owner? hown, or_true, true_and]
    · have hs : p.Hosts s := by simp [Hosts, hp]
      rw [hm] at hafter hhosts ⊢
      simp only [ih, hafter, hhosts, hs, hfree, true_or, true_and, and_true]
      refine forall₂_congr fun t _ => and_congr_right fun _ => ?_
      by_cases hts : t = s
      · simp [hts, hfree]
      · rw [if_neg hts]
    · simp only [hm, reduceCtorEq, false_iff, not_and]
      intro hs
      rcases hno with h | ⟨x, hx, h⟩
      · exact absurd hs.1 h
      · simp [h, hx] at hs

/-! ## Everything an owner holds -/

theorem ownerIn_freeOwned (o : String) (s : Cidr) (blocks : List Block) (t : Cidr) :
    ownerIn t (freeOwned o blocks s) =
      if t = s ∧ ownerIn s blocks = some o then none else ownerIn t blocks := by
  unfold freeOwned
  cases hp : locate s blocks with
  | none => simp [ownerIn, hp]
  | some place =>
    have hat : ownerAt blocks place = ownerIn s blocks := by
      rw [ownerIn, hp]
      rfl
    simp only [hat]
    by_cases hown : ownerIn s blocks = some o
    · simp only [hown, if_true, and_true]
      exact ownerIn_assign hp none t
    · simp [hown]

theorem locate_freeOwned (o : String) (s : Cidr) (blocks : List Block) (t : Cidr) :
    locate t (freeOwned o blocks s) = locate t blocks := by
  unfold freeOwned
  cases hp : locate s blocks with
  | none => rfl
  | some place =>
    dsimp only
    split
    · exact locate_assign t place none blocks
    · rfl

theorem Sound.freeOwned {blocks : List Block} (h : Sound blocks) (o : String) (s : Cidr) :
    Sound (freeOwned o blocks s) := by
  unfold Pool.freeOwned
  cases hp : locate s blocks with
  | none => exact h
  | some place =>
    dsimp only
    split
    · exact h.assign hp none
    · exact h

theorem ownerIn_foldl_freeOwned (o : String) (l : List Cidr) (blocks : List Block) (t : Cidr) :
    ownerIn t (l.foldl (freeOwned o) blocks) =
      if t ∈ l ∧ ownerIn t blocks = some o then none else ownerIn t blocks := by
  induction l generalizing blocks with
  | nil => simp
  | cons s rest ih =>
    rw [List.foldl_cons, ih, ownerIn_freeOwned]
    by_cases hts : t = s
    · subst hts
      by_cases hs : ownerIn t blocks = some o
      · simp [hs]
      · simp [hs]
    · simp [hts]

theorem locate_foldl_freeOwned (o : String) (l : List Cidr) (blocks : List Block) (t : Cidr) :
    locate t (l.foldl (freeOwned o) blocks) = locate t blocks := by
  induction l generalizing blocks with
  | nil => rfl
  | cons s rest ih => rw [List.foldl_cons, ih, locate_freeOwned]

theorem Sound.foldl_freeOwned {blocks : List Block} (h : Sound blocks) (o : String) (l : List Cidr) :
    Sound (l.foldl (Pool.freeOwned o) blocks) := by
  induction l generalizing blocks with
  | nil => exact h
  | cons s rest ih => exact ih (h.freeOwned o s)

theorem hosts_releaseAll (o : String) (p : Pool) (t : Cidr) : (p.releaseAll o).2.Hosts t ↔ p.Hosts t := by
  unfold releaseAll
  cases p.held.find? o with
  | none => rfl
  | some l =>
    unfold Hosts
    rw [locate_foldl_freeOwned]

/-- Giving back everything frees exactly what the owner held. -/
theorem Coherent.owner?_releaseAll {p : Pool} (h : Coherent p) (o : String) (t : Cidr) :
    (p.releaseAll o).2.owner? t = if p.owner? t = some o then none else p.owner? t := by
  have hall := h.mirrored o t
  unfold allocated at hall
  unfold releaseAll
  cases hf : p.held.find? o with
  | none =>
    rw [hf] at hall
    have hown : p.owner? t ≠ some o := fun ho => by
      have hmem := hall.2 ho
      cases hmem
    rw [if_neg hown]
  | some l =>
    rw [hf, Option.getD_some] at hall
    show ownerIn t (l.foldl (freeOwned o) p.blocks) = _
    rw [ownerIn_foldl_freeOwned]
    by_cases hown : p.owner? t = some o
    · rw [if_pos hown, if_pos ⟨hall.2 hown, hown⟩]
    · rw [if_neg hown, if_neg fun hboth => hown hboth.2]
      rfl

theorem allocated_erase (o x : String) (p : Pool) (blocks : List Block) :
    (⟨blocks, p.held.erase o⟩ : Pool).allocated x = if x = o then [] else p.allocated x := by
  unfold allocated
  rw [SortedMap.find?_erase]
  split <;> rfl

theorem allocated_releaseAll (o x : String) (p : Pool) :
    (p.releaseAll o).2.allocated x = if x = o then [] else p.allocated x := by
  unfold Pool.releaseAll
  split
  · rename_i hnone
    split
    · rename_i hx
      rw [hx, allocated, hnone]
      rfl
    · rfl
  · exact allocated_erase o x p _

theorem Coherent.releaseAll {p : Pool} (h : Coherent p) (o : String) : Coherent (p.releaseAll o).2 := by
  have hown := h.owner?_releaseAll o
  unfold Pool.releaseAll at hown ⊢
  cases hf : p.held.find? o with
  | none => exact h
  | some l =>
    rw [hf] at hown
    refine ⟨h.sound.foldl_freeOwned o l, fun x t => ?_, fun x l' hl => ?_⟩
    · rw [hown t]
      show t ∈ (⟨_, p.held.erase o⟩ : Pool).allocated x ↔ _
      rw [allocated_erase]
      by_cases hx : x = o
      · subst hx
        by_cases ht : p.owner? t = some x <;> simp [ht]
      · rw [if_neg hx, h.mirrored]
        by_cases ht : p.owner? t = some o
        · simp [ht, Ne.symm hx]
        · simp [ht]
    · rw [SortedMap.find?_erase] at hl
      split at hl
      · cases hl
      · exact h.listed x l' hl

/-! ## Allocation -/

theorem take_spec {blocks blocks' : List Block} (h : Sound blocks) {o : String} {f : Family} {s : Cidr}
    (ht : take o f blocks = some (s, blocks')) :
    ∃ place, locate s blocks = some place ∧ ownerIn s blocks = none ∧ s.family = f ∧
      blocks' = assign place (some o) blocks := by
  induction blocks generalizing blocks' with
  | nil => cases ht
  | cons b rest ih =>
    have later : ∀ {tail}, take o f rest = some (s, tail) →
        ∃ place, locate s (b :: rest) = some place ∧ ownerIn s (b :: rest) = none ∧ s.family = f ∧
          b :: tail = assign place (some o) (b :: rest) := by
      intro tail ht'
      obtain ⟨⟨k, i⟩, hp, hfree, hf, rfl⟩ := ih h.of_cons ht'
      -- an earlier range without common addresses cannot have the subnet
      have hb : b.index? s = none := by
        cases hb : b.index? s with
        | none => rfl
        | some j =>
          obtain ⟨c, hc, hi⟩ := exists_of_locate hp
          exact absurd (Block.meets_of_index? hb hi s.meets_self) ((List.pairwise_cons.1 h.apart).1 c hc)
      refine ⟨(k + 1, i), ?_, ?_, hf, rfl⟩
      · rw [locate_cons_none hb, hp]
        rfl
      · rw [ownerIn_cons_none hb, hfree]
    unfold take at ht
    split at ht
    · rename_i hfam
      split at ht
      · rename_i i hi hlow
        obtain ⟨rfl, rfl⟩ := Prod.mk.inj (Option.some.inj ht)
        have hindex := b.index?_hostSubnet hi
        refine ⟨(0, i), locate_cons_some hindex rest, ?_, hfam, rfl⟩
        rw [ownerIn_cons_some hindex]
        exact Block.owner?_lowestFree hlow
      · obtain ⟨⟨_, tail⟩, ht', ⟨⟩⟩ := Option.map_eq_some_iff.1 ht
        exact later ht'
    · obtain ⟨⟨_, tail⟩, ht', ⟨⟩⟩ := Option.map_eq_some_iff.1 ht
      exact later ht'

/-- Allocation either reserves a free subnet of the family, as marking it would, or changes nothing. -/
theorem Coherent.allocate_cases {p : Pool} (h : Coherent p) (o : String) (f : Family) :
    (∃ s place, locate s p.blocks = some place ∧ p.owner? s = none ∧ s.family = f ∧
        p.allocate o f = (.ok (some s), ⟨assign place (some o) p.blocks, hold o s p.held⟩)) ∨
      ((∀ s, (p.allocate o f).1 ≠ .ok (some s)) ∧ (p.allocate o f).2 = p) := by
  unfold allocate
  split
  · cases ht : take o f p.blocks with
    | some taken =>
      obtain ⟨s, blocks⟩ := taken
      obtain ⟨place, hp, hfree, hf, rfl⟩ := take_spec h.sound ht
      exact Or.inl ⟨s, place, hp, hfree, hf, rfl⟩
    | none => exact Or.inr ⟨fun s hs => by simp at hs, rfl⟩
  · exact Or.inr ⟨fun s hs => by simp at hs, rfl⟩

theorem Coherent.allocate {p : Pool} (h : Coherent p) (o : String) (f : Family) :
    Coherent (p.allocate o f).2 := by
  rcases h.allocate_cases o f with ⟨s, place, hp, hfree, -, ha⟩ | ⟨-, ha⟩
  · rw [ha]
    exact h.reserve hp hfree o
  · rw [ha]
    exact h

/-! ## Registration -/

/-- The lengths make no range, or the first registered range that shares an address is in the way, or the range is
added. -/
theorem addRange_result (network : Cidr) (hostLength : Nat) (p : Pool) :
    (¬ (network.length ≤ hostLength ∧ hostLength ≤ network.family.bits) ∧
        ∃ range reason, p.addRange network hostLength = (.error (.invalidRange range reason), p)) ∨
      (∃ b, Block.of network hostLength = .ok b ∧ ∃ c, p.blocks.find? (·.network.Meets network) = some c ∧
        p.addRange network hostLength = (.error (.rangeOverlap network.masked c.network), p)) ∨
        ∃ b, Block.of network hostLength = .ok b ∧ p.blocks.find? (·.network.Meets network) = none ∧
          p.addRange network hostLength = (.ok (), { p with blocks := p.blocks ++ [b] }) := by
  unfold addRange
  cases hof : Block.of network hostLength with
  | error e =>
    unfold Block.of at hof
    split at hof
    · cases hof
    · rename_i hbounds
      obtain rfl := Except.error.inj hof
      exact Or.inl ⟨hbounds, _, _, rfl⟩
  | ok b =>
    obtain ⟨-, -, hnetwork, -, -⟩ := Block.of_eq_ok_iff.1 hof
    have hoverlaps : (fun c : Block => c.network.overlaps b.network) = fun c => decide (c.network.Meets network) := by
      funext c
      rw [Bool.eq_iff_iff, Cidr.overlaps_iff_meets, hnetwork, Cidr.meets_masked_right, decide_eq_true_iff]
    dsimp only
    rw [hoverlaps]
    cases hfind : p.blocks.find? fun c => decide (c.network.Meets network) with
    | some c => exact Or.inr (Or.inl ⟨b, rfl, c, rfl, by rw [← hnetwork]⟩)
    | none => exact Or.inr (Or.inr ⟨b, rfl, rfl, rfl⟩)

theorem addRange_cases (network : Cidr) (hostLength : Nat) (p : Pool) :
    (∃ b : Block, b.network = network.masked ∧ b.used = .empty ∧ (∀ c ∈ p.blocks, ¬ c.network.Meets b.network) ∧
        p.addRange network hostLength = (.ok (), { p with blocks := p.blocks ++ [b] })) ∨
      ∃ e, p.addRange network hostLength = (.error e, p) := by
  rcases addRange_result network hostLength p with ⟨-, _, _, ha⟩ | ⟨_, -, _, -, ha⟩ | ⟨b, hof, hnone, ha⟩
  · exact Or.inr ⟨_, ha⟩
  · exact Or.inr ⟨_, ha⟩
  · obtain ⟨-, -, hnetwork, -, hused⟩ := Block.of_eq_ok_iff.1 hof
    refine Or.inl ⟨b, hnetwork, hused, fun c hc => ?_, ha⟩
    rw [hnetwork, Cidr.meets_masked_right]
    simpa using List.find?_eq_none.1 hnone c hc

theorem ownerIn_append_empty (s : Cidr) (blocks : List Block) {b : Block} (hb : b.used = .empty) :
    ownerIn s (blocks ++ [b]) = ownerIn s blocks := by
  induction blocks with
  | nil =>
    rw [List.nil_append, ownerIn_nil]
    cases hi : b.index? s with
    | some i => rw [ownerIn_cons_some hi, Block.owner?, hb, SortedMap.find?_empty]
    | none => rw [ownerIn_cons_none hi, ownerIn_nil]
  | cons c rest ih =>
    rw [List.cons_append]
    cases hi : c.index? s with
    | some i => rw [ownerIn_cons_some hi, ownerIn_cons_some hi]
    | none => rw [ownerIn_cons_none hi, ownerIn_cons_none hi, ih]

theorem Coherent.addRange {p : Pool} (h : Coherent p) (network : Cidr) (hostLength : Nat) :
    Coherent (p.addRange network hostLength).2 := by
  rcases addRange_cases network hostLength p with ⟨b, -, hb, hapart, ha⟩ | ⟨e, ha⟩
  · rw [ha]
    refine ⟨⟨?_, ?_⟩, fun o s => ?_, h.listed⟩
    · rw [List.pairwise_append]
      refine ⟨h.sound.apart, List.pairwise_singleton _ _, fun c hc d hd => ?_⟩
      rw [List.mem_singleton.1 hd]
      exact hapart c hc
    · intro c hc i o ho
      rcases List.mem_append.1 hc with hc | hc
      · exact h.sound.numbered c hc i o ho
      · rw [List.mem_singleton.1 hc, Block.owner?, hb, SortedMap.find?_empty] at ho
        cases ho
    · rw [owner?, ownerIn_append_empty s p.blocks hb]
      exact h.mirrored o s
  · rw [ha]
    exact h

/-! ## Runs -/

/-- Every operation keeps a pool coherent, also one that fails. -/
theorem Coherent.perform {p : Pool} (h : Coherent p) (q : Request) : Coherent (q.perform p).2 := by
  cases q with
  | addRange network hostLength => exact h.addRange network hostLength
  | allocate o f => exact h.allocate o f
  | mark o l => exact h.mark o l
  | release o l => exact h.release o l
  | releaseAll o => exact h.releaseAll o
  | allocated o => exact h
  | count => exact h
  | usage => exact h

/-- The pool after operations one after the other. -/
def after (p : Pool) (requests : List Request) : Pool :=
  requests.foldl (fun p q => (q.perform p).2) p

theorem Coherent.after {p : Pool} (h : Coherent p) (requests : List Request) :
    Coherent (p.after requests) := by
  unfold Pool.after
  induction requests generalizing p with
  | nil => exact h
  | cons q rest ih => exact ih (h.perform q)

end HostSubnets.Pool
