import HostSubnets.Proofs.Pool.Reconcile

/-!
# When new subnets run out

A family is full if no range of it has a number left. Allocation finds nothing exactly then (`allocate_some_iff`),
and what an owner is missing can be completed exactly if none of the missing families is full (`complete_ok_iff`).
`Strands` : a family of which none of a list is free runs short, and there is a free subnet of another one.
-/

namespace HostSubnets.Pool

open HostSubnets.Task

variable {p : Pool} {o : String} {families : Families}

/-! ## Free subnets and full families -/

def Free (p : Pool) (s : Cidr) : Prop := p.Hosts s ∧ p.owner? s = none

instance (p : Pool) (s : Cidr) : Decidable (p.Free s) := inferInstanceAs (Decidable (_ ∧ _))

def FullIn (f : Family) (blocks : List Block) : Prop := ∀ b ∈ blocks, b.network.family = f → b.lowestFree = none

def Full (p : Pool) (f : Family) : Prop := FullIn f p.blocks

instance (f : Family) (blocks : List Block) : Decidable (FullIn f blocks) :=
  inferInstanceAs (Decidable (∀ b ∈ blocks, _ → _))

instance (p : Pool) (f : Family) : Decidable (p.Full f) := inferInstanceAs (Decidable (FullIn f p.blocks))

theorem fullIn_cons {f : Family} {b : Block} {rest : List Block} :
    FullIn f (b :: rest) ↔ (b.network.family = f → b.lowestFree = none) ∧ FullIn f rest :=
  List.forall_mem_cons

theorem take_eq_none_iff (o : String) (f : Family) (blocks : List Block) :
    take o f blocks = none ↔ FullIn f blocks := by
  induction blocks with
  | nil => simp [take, FullIn]
  | cons b rest ih =>
    rw [fullIn_cons, take]
    split
    · rename_i hf
      split
      · rename_i i hi hlow
        simp [hf, hlow]
      · rename_i hlow
        rw [Option.map_eq_none_iff, ih]
        simp [hlow]
    · rename_i hf
      rw [Option.map_eq_none_iff, ih]
      simp [hf]

/-- Allocation finds a subnet exactly if a range of the family has a number left. -/
theorem allocate_some_iff (o : String) (f : Family) (p : Pool) :
    (∃ s, (p.allocate o f).1 = .ok (some s)) ↔ ¬ p.Full f := by
  unfold Full
  rw [← take_eq_none_iff o f p.blocks, ← ne_eq, Option.ne_none_iff_exists']
  unfold allocate
  split
  · cases take o f p.blocks with
    | none => simp
    | some taken => simp
  · rename_i hnone
    have hfull : take o f p.blocks = none := by
      rw [take_eq_none_iff]
      intro b hb hf
      exact absurd (List.any_eq_true.2 ⟨b, hb, by simpa using hf⟩) hnone
    simp [hfull]

theorem fullIn_assign {s : Cidr} {blocks : List Block} {place : Nat × Nat} (h : locate s blocks = some place)
    (x : Option String) {f : Family} (hf : s.family ≠ f) : FullIn f (assign place x blocks) ↔ FullIn f blocks := by
  obtain ⟨before, b, after, rfl, hb, hassign⟩ := exists_split_of_locate h
  have hother : b.network.family ≠ f := fun hbf => hf ((Block.family_of_index? hb).trans hbf)
  rw [hassign]
  simp only [FullIn, List.forall_mem_append, List.forall_mem_cons, Block.network_assign, hother, false_imp_iff]

/-! ## Runs -/

theorem runAlone_seq {α β : Type} (program : Program α) (f : α → Program β) (p : Pool) :
    Program.runAlone (program >>= f) p = (f (program.runAlone p).1).runAlone (program.runAlone p).2 :=
  run_seq Request.perform program f p

theorem runAlone_perform {α : Type} (request : Request) (f : request.Reply → Program α) (p : Pool) :
    Program.runAlone (perform request >>= f) p = (f (request.perform p).1).runAlone (request.perform p).2 := rfl

theorem Coherent.runAlone_of_always {α : Type} {inv : Set Cidr → Prop} {post : α → Set Cidr → Prop}
    {program : Program α} (hp : p.Coherent) (h : program.Always (Request.Seen o) inv post (p.heldBy o)) :
    (program.runAlone p).2.Coherent ∧ post (program.runAlone p).1 ((program.runAlone p).2.heldBy o) := by
  have hstep : ∀ (q : Request) (p : Pool) (H : Set Cidr), p.Coherent ∧ H = p.heldBy o →
      ∃ H', q.Seen o H (q.perform p).1 H' ∧ (q.perform p).2.Coherent ∧ H' = (q.perform p).2.heldBy o := by
    rintro q p _ ⟨hp, rfl⟩
    exact ⟨_, hp.seen_perform o q, hp.perform q, rfl⟩
  obtain ⟨H, ⟨hcoherent, hH⟩, hpost⟩ := h.run hstep ⟨hp, rfl⟩
  subst hH
  exact ⟨hcoherent, hpost⟩

/-! ## New subnets -/

/-- An allocation that fails gives back the new subnets first. -/
theorem runAlone_giveBack_error (l : List Cidr) (e : PoolError) (p : Pool) :
    ((giveBack o l >>= fun _ => pure (.error e) : Program (Except PoolError (List Cidr))).runAlone p).1 = .error e := by
  rw [runAlone_seq]
  rfl

theorem length_le_of_fill {absent : List Family} {l l' : List Cidr}
    (h : ((fill o l absent).runAlone p).1 = .ok l') : l'.length ≤ l.length + absent.length := by
  induction absent generalizing l p with
  | nil =>
    obtain rfl : l = l' := Except.ok.inj h
    exact Nat.le_refl _
  | cons f rest ih =>
    rw [fill, runAlone_perform] at h
    rw [List.length_cons]
    generalize (Request.allocate o f).perform p = step at h
    obtain ⟨reply, p'⟩ := step
    rcases reply with e | taken
    · cases (runAlone_giveBack_error l e _).symm.trans h
    · cases taken with
      | none =>
        have hle := ih h
        omega
      | some s =>
        have hle := ih h
        rw [List.length_append, List.length_singleton] at hle
        omega

theorem length_le_of_full {f : Family} {rest : List Family} {l l' : List Cidr} (hp : p.Coherent) (hfull : p.Full f)
    (h : ((fill o l (f :: rest)).runAlone p).1 = .ok l') : l'.length ≤ l.length + rest.length := by
  have hsome := allocate_some_iff o f p
  rw [fill, runAlone_perform] at h
  rcases hp.allocate_cases o f with ⟨s, place, -, -, -, ha⟩ | ⟨hno, hsame⟩
  · exact absurd hfull (hsome.1 ⟨s, by rw [ha]⟩)
  · rw [show (Request.allocate o f).perform p = ((p.allocate o f).1, p) from Prod.ext rfl hsame] at h
    generalize (p.allocate o f).1 = reply at h hno
    rcases reply with e | taken
    · cases (runAlone_giveBack_error l e _).symm.trans h
    · cases taken with
      | some s => exact absurd rfl (hno s)
      | none => exact length_le_of_fill h

/-- One subnet is found for each of the families exactly if none of them is full. -/
theorem fill_ok_iff (hp : p.Coherent) {absent : List Family} (hnodup : absent.Nodup) (l : List Cidr) :
    (∃ l', ((fill o l absent).runAlone p).1 = .ok l' ∧ l'.length = l.length + absent.length) ↔
      ∀ f ∈ absent, ¬ p.Full f := by
  induction absent generalizing l p with
  | nil => exact ⟨fun _ f hf => absurd hf List.not_mem_nil, fun _ => ⟨l, rfl, rfl⟩⟩
  | cons f rest ih =>
    obtain ⟨hf, hrest⟩ := List.nodup_cons.1 hnodup
    rw [List.forall_mem_cons]
    by_cases hfull : p.Full f
    · refine ⟨?_, fun h => absurd hfull h.1⟩
      rintro ⟨l', hl', hlen⟩
      have hle := length_le_of_full hp hfull hl'
      rw [List.length_cons] at hlen
      omega
    · obtain ⟨s, hs⟩ := (allocate_some_iff o f p).2 hfull
      obtain ⟨s, place, hplace, hfree, hsf, ha⟩ : ∃ s place, locate s p.blocks = some place ∧ _ :=
        (hp.allocate_cases o f).resolve_right fun hno => hno.1 s hs
      -- the subnet that is taken leaves the other families as full as they are
      have hothers : ∀ g ∈ rest, (⟨assign place (some o) p.blocks, hold o s p.held⟩ : Pool).Full g ↔ p.Full g := by
        intro g hg
        refine fullIn_assign hplace (some o) ?_
        rintro rfl
        exact hf (hsf ▸ hg)
      have hlen : (l ++ [s]).length + rest.length = l.length + (f :: rest).length := by
        rw [List.length_append, List.length_singleton, List.length_cons]
        omega
      rw [fill, runAlone_perform, show (Request.allocate o f).perform p = _ from ha, ← hlen]
      refine (ih (hp.reserve hplace hfree o) hrest (l ++ [s])).trans ?_
      simp only [hfull, not_false_eq_true, true_and]
      exact forall₂_congr fun g hg => not_congr (hothers g hg)

theorem complete_ok_iff (hp : p.Coherent) {kept : List Cidr} (hadmits : families.Admits kept) :
    (∃ a, ((complete o families kept).runAlone p).1 = .ok a) ↔ ∀ f ∈ missing families kept, ¬ p.Full f := by
  unfold complete
  split
  · rename_i hlen
    rw [missing_eq_nil_of_length hadmits hlen]
    exact ⟨fun _ f hf => absurd hf List.not_mem_nil, fun _ => ⟨_, rfl⟩⟩
  · rw [← fill_ok_iff hp (nodup_missing families kept) [], runAlone_seq]
    generalize (fill o [] (missing families kept)).runAlone p = run
    obtain ⟨result, p'⟩ := run
    rw [List.length_nil, Nat.zero_add]
    cases result with
    | error e =>
      constructor
      · rintro ⟨a, ⟨⟩⟩
      · rintro ⟨l', ⟨⟩, -⟩
    | ok l =>
      dsimp only
      split
      · rename_i hlen
        exact ⟨fun _ => ⟨l, rfl, hlen⟩, fun _ => ⟨_, rfl⟩⟩
      · rename_i hlen
        rw [runAlone_seq]
        constructor
        · rintro ⟨a, ⟨⟩⟩
        · rintro ⟨l', ⟨⟩, hlen'⟩
          exact absurd hlen' hlen

/-! ## Families that run short -/

/-- A wanted family of which none of the subnets is free and no range has a number left. -/
def Short (p : Pool) (families : Families) (existing : List Cidr) : Prop :=
  ∃ f, families.wants f = true ∧ (∀ s ∈ existing, s.family = f → ¬ p.Free s) ∧ p.Full f

instance (p : Pool) (families : Families) (existing : List Cidr) : Decidable (p.Short families existing) :=
  decidable_of_iff (∃ f ∈ [Family.v4, Family.v6], families.wants f = true ∧
    (∀ s ∈ existing, s.family = f → ¬ p.Free s) ∧ p.Full f) <| by
    constructor
    · rintro ⟨f, -, hf⟩
      exact ⟨f, hf⟩
    · rintro ⟨f, hf⟩
      exact ⟨f, by cases f <;> simp, hf⟩

/-- A family runs short, but there is a free subnet of another wanted one. -/
def Strands (p : Pool) (families : Families) (existing : List Cidr) : Prop :=
  p.Short families existing ∧ ∃ s ∈ existing, families.wants s.family = true ∧ p.Free s

instance (p : Pool) (families : Families) (existing : List Cidr) : Decidable (p.Strands families existing) :=
  inferInstanceAs (Decidable (_ ∧ _))

theorem not_strands_onlyV4 (p : Pool) (existing : List Cidr) : ¬ p.Strands .onlyV4 existing := by
  rintro ⟨⟨f, hf, hnone, -⟩, s, hs, hw, hfree⟩
  have hsame : s.family = f := by
    cases hsf : s.family <;> cases f <;> simp_all [Families.wants, Families.onlyV4]
  exact hnone s hs hsame hfree

end HostSubnets.Pool
