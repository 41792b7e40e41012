import HostSubnets.Proofs.Pool.Exhaustion

/-!
# What an owner can have

A subnet that is registered and that nobody else holds (`Usable`), or a number that a range has left. Requests of the
owner do not change the first (`Coherent.usable_perform`), and giving back takes the second from no family
(`full_of_full_release`, `full_of_full_releaseAll`). A reservation concerns its own family only.
-/

namespace HostSubnets

/-! ## Numbers that are left -/

namespace Block

theorem mem_of_lt_gap {c i : Nat} {l : List Nat} (hc : c ≤ i) (hi : i < gap c l) : i ∈ l := by
  induction l generalizing c with
  | nil =>
    have hlt : i < c := hi
    omega
  | cons j rest ih =>
    unfold gap at hi
    split at hi
    · rename_i hj
      by_cases hij : i = j
      · exact hij ▸ List.mem_cons_self
      · exact List.mem_cons_of_mem _ (ih (by omega) hi)
    · omega

theorem owner?_ne_none_of_lt_gap {b : Block} {i : Nat} (h : i < gap 0 b.used.keys) : b.owner? i ≠ none := by
  obtain ⟨o, ho⟩ := SortedMap.mem_keys.1 (mem_of_lt_gap (Nat.zero_le i) h)
  unfold owner?
  rw [ho]
  exact Option.some_ne_none o

theorem lowestFree_eq_none_iff {b : Block} :
    b.lowestFree = none ↔ ∀ i < b.capacity, (b.owner? i).isSome = true := by
  unfold lowestFree
  dsimp only
  split
  · rename_i hlt
    simp only [reduceCtorEq, false_iff]
    intro hall
    have hgap := hall _ hlt
    rw [b.owner?_gap] at hgap
    cases hgap
  · rename_i hge
    refine ⟨fun _ i hi => Option.isSome_iff_ne_none.2 (owner?_ne_none_of_lt_gap ?_), fun _ => rfl⟩
    omega

theorem lowestFree_eq_some_iff {b : Block} {i : Nat} {hi : i < b.count} :
    b.lowestFree = some ⟨i, hi⟩ ↔ i < b.capacity ∧ b.owner? i = none ∧ ∀ j < i, b.owner? j ≠ none := by
  have hgap := b.owner?_gap
  unfold lowestFree
  dsimp only
  constructor
  · intro h
    split at h
    · rename_i hlt
      obtain rfl := Subtype.mk.inj (Option.some.inj h)
      exact ⟨hlt, hgap, fun j => owner?_ne_none_of_lt_gap⟩
    · cases h
  · rintro ⟨hlt, hfree, hlower⟩
    obtain rfl : i = gap 0 b.used.keys := by
      rcases Nat.lt_trichotomy i (gap 0 b.used.keys) with h | h | h
      · exact absurd hfree (owner?_ne_none_of_lt_gap h)
      · exact h
      · exact absurd hgap (hlower _ h)
    rw [dif_pos hlt]

theorem lowestFree_of_free {b : Block} {i : Nat} (h : (b.assign i none).lowestFree = none) : b.lowestFree = none := by
  rw [lowestFree_eq_none_iff] at h ⊢
  intro j hj
  have hsome := h j hj
  rw [owner?_assign] at hsome
  split at hsome
  · cases hsome
  · exact hsome

end Block

namespace Pool

variable {p q : Pool} {o : String} {s : Cidr} {f : Family}

theorem fullIn_of_assign_none {place : Nat × Nat} {blocks : List Block} (h : FullIn f (assign place none blocks)) :
    FullIn f blocks := by
  obtain ⟨k, i⟩ := place
  induction blocks generalizing k with
  | nil => exact fun b hb => by cases hb
  | cons b rest ih =>
    cases k with
    | zero =>
      rw [assign_zero, fullIn_cons, Block.network_assign] at h
      exact fullIn_cons.2 ⟨fun hf => Block.lowestFree_of_free (h.1 hf), h.2⟩
    | succ k =>
      rw [assign_succ, fullIn_cons] at h
      exact fullIn_cons.2 ⟨h.1, ih k h.2⟩

theorem full_of_full_release (h : (p.release o [s]).2.Full f) : p.Full f := by
  unfold release attemptAll at h
  rcases releaseOne_cases o p s with ⟨place, -, -, hm⟩ | ⟨-, e, hm⟩ <;> rw [hm] at h
  · exact fullIn_of_assign_none h
  · exact h

theorem full_of_full_releaseAll (h : (p.releaseAll o).2.Full f) : p.Full f := by
  have hfold : ∀ (l : List Cidr) (blocks : List Block), FullIn f (l.foldl (freeOwned o) blocks) → FullIn f blocks := by
    intro l
    induction l with
    | nil => exact fun _ hblocks => hblocks
    | cons t rest ih =>
      intro blocks hblocks
      have hfreed := ih (freeOwned o blocks t) hblocks
      unfold freeOwned at hfreed
      split at hfreed
      · exact hfreed
      · split at hfreed
        · exact fullIn_of_assign_none hfreed
        · exact hfreed
  unfold releaseAll at h
  split at h
  · exact h
  · exact hfold _ _ h

theorem full_release_one (hf : s.family = f → p.owner? s ≠ some o) : (p.release o [s]).2.Full f ↔ p.Full f := by
  unfold release attemptAll
  rcases releaseOne_cases o p s with ⟨place, hp, hown, hm⟩ | ⟨-, e, hm⟩ <;> rw [hm]
  · exact fullIn_assign hp none fun hsf => hf hsf hown
  · exact Iff.rfl

theorem full_mark_one (o : String) (hf : s.family ≠ f) : (p.mark o [s]).2.Full f ↔ p.Full f := by
  unfold mark attemptAll
  rcases markOne_cases o p s with ⟨-, hm⟩ | ⟨place, hp, -, hm⟩ | ⟨-, e, hm⟩ <;> rw [hm]
  · exact Iff.rfl
  · exact fullIn_assign hp (some o) hf
  · exact Iff.rfl

theorem Coherent.full_allocate (hp : p.Coherent) (o : String) {g : Family} (hf : g ≠ f) :
    (p.allocate o g).2.Full f ↔ p.Full f := by
  rcases hp.allocate_cases o g with ⟨s, place, hplace, -, hsf, ha⟩ | ⟨-, ha⟩ <;> rw [ha]
  exact fullIn_assign hplace (some o) fun hs => hf (hsf.symm.trans hs)

/-! ## Subnets that nobody else holds -/

/-- Registered, and reserved for nobody else. -/
def Usable (p : Pool) (o : String) (s : Cidr) : Prop := p.Hosts s ∧ (p.owner? s = none ∨ p.owner? s = some o)

instance (p : Pool) (o : String) (s : Cidr) : Decidable (p.Usable o s) := inferInstanceAs (Decidable (_ ∧ _))

theorem usable_of_owner? (h : p.owner? s = some o) : p.Usable o s := ⟨hosts_of_owner? h, Or.inr h⟩

theorem mark_one_ok_iff (p : Pool) (o : String) (s : Cidr) : (p.mark o [s]).1 = .ok () ↔ p.Usable o s := by
  simp [mark_ok_iff, Usable]

theorem mark_one_error (h : ¬ p.Usable o s) : (p.mark o [s]).2 = p := by
  unfold mark attemptAll
  rcases markOne_cases o p s with ⟨hown, -⟩ | ⟨place, hplace, hfree, -⟩ | ⟨-, e, hm⟩
  · exact absurd (usable_of_owner? hown) h
  · exact absurd ⟨by simp [Hosts, hplace], Or.inl hfree⟩ h
  · rw [hm]
    rfl

theorem owner?_mark_one (p : Pool) (o : String) (s t : Cidr) :
    (p.mark o [s]).2.owner? t = if t = s ∧ p.Usable o s then some o else p.owner? t := by
  rw [owner?_mark]
  by_cases hts : t = s
  · subst hts
    by_cases hown : p.owner? t = some o
    · rw [if_neg (by simp [hown]), if_pos ⟨rfl, usable_of_owner? hown⟩, hown]
    · simp [Usable, hown]
  · simp [hts]

theorem Coherent.hosts_perform (hp : p.Coherent) {x : Request} (hx : x.IsBy o) (s : Cidr) :
    (x.perform p).2.Hosts s ↔ p.Hosts s := by
  cases x with
  | addRange network hostLength => exact hx.elim
  | allocate y g =>
    show (p.allocate y g).2.Hosts s ↔ _
    rcases hp.allocate_cases y g with ⟨t, place, -, -, -, ha⟩ | ⟨-, ha⟩ <;> rw [ha]
    exact hosts_assign s
  | mark y l => exact hosts_mark y l p s
  | release y l => exact hosts_release y l p s
  | releaseAll y => exact hosts_releaseAll y p s
  | allocated y => exact Iff.rfl
  | count => exact Iff.rfl
  | usage => exact Iff.rfl

/-- **What an owner can have is not changed by its requests**: they only move subnets between it and nobody. -/
theorem Coherent.usable_perform (hp : p.Coherent) {x : Request} (hx : x.IsBy o) (s : Cidr) :
    (x.perform p).2.Usable o s ↔ p.Usable o s := by
  unfold Usable
  rw [hp.hosts_perform hx s]
  refine and_congr_right fun _ => ?_
  cases x with
  | addRange network hostLength => exact hx.elim
  | allocate y g =>
    obtain rfl : y = o := hx
    show (p.allocate y g).2.owner? s = none ∨ (p.allocate y g).2.owner? s = some y ↔ _
    rcases hp.allocate_cases y g with ⟨t, place, hplace, hfree, -, ha⟩ | ⟨-, ha⟩ <;> rw [ha]
    have hassign : ownerIn s (assign place (some y) p.blocks) = if s = t then some y else p.owner? s :=
      ownerIn_assign hplace (some y) s
    rw [owner?, hassign]
    by_cases hst : s = t
    · simp [hst, hfree]
    · simp [hst]
  | mark y l =>
    obtain rfl : y = o := hx
    show (p.mark y l).2.owner? s = none ∨ (p.mark y l).2.owner? s = some y ↔ _
    rw [owner?_mark]
    split
    · rename_i hnew
      simp [hnew.2.2]
    · rfl
  | release y l =>
    obtain rfl : y = o := hx
    show (p.release y l).2.owner? s = none ∨ (p.release y l).2.owner? s = some y ↔ _
    rw [owner?_release]
    split
    · rename_i hold
      simp [hold.2]
    · rfl
  | releaseAll y =>
    obtain rfl : y = o := hx
    show (p.releaseAll y).2.owner? s = none ∨ (p.releaseAll y).2.owner? s = some y ↔ _
    rw [hp.owner?_releaseAll]
    split
    · rename_i hold
      simp [hold]
    · rfl
  | allocated y => exact Iff.rfl
  | count => exact Iff.rfl
  | usage => exact Iff.rfl

end Pool

end HostSubnets
