import HostSubnets.Proofs.Pool.Room

/-!
# Which subnets reconciliation settles on

A run of `reconcile` alone on a pool, for an owner that may hold subnets already. Of its existing subnets it retains,
in each wanted family, the first one that nobody else holds (`pick`), and gives back the others (`keep_picked`). It
fails exactly if a family without such a subnet has no number left (`Starved`), and then the retained ones are all
that is left of the existing ones (`reconcile_settles`). Where they are one of each family and held already, nothing
changes at all (`reconcile_owned`).
-/

namespace HostSubnets.Pool

open HostSubnets.Task

variable {p q : Pool} {o : String} {families : Families} {existing kept : List Cidr} {s : Cidr} {f : Family}

/-! ## Subnets that an owner can have -/

/-- The first subnet of a family that an owner can have. -/
def pick (p : Pool) (o : String) (existing : List Cidr) (f : Family) : Option Cidr :=
  existing.find? fun s => s.family = f ∧ p.Usable o s

/-- Whether a subnet is the one of its family that an owner stays with. -/
def Retains (p : Pool) (o : String) (families : Families) (existing : List Cidr) (s : Cidr) : Prop :=
  families.wants s.family = true ∧ p.pick o existing s.family = some s

instance (p : Pool) (o : String) (families : Families) (existing : List Cidr) (s : Cidr) :
    Decidable (p.Retains o families existing s) := inferInstanceAs (Decidable (_ ∧ _))

/-- A wanted family in which the owner can have none of its subnets, and no range has a number left. -/
def Starved (p : Pool) (o : String) (families : Families) (existing : List Cidr) : Prop :=
  ∃ f, families.wants f = true ∧ p.pick o existing f = none ∧ p.Full f

instance (p : Pool) (o : String) (families : Families) (existing : List Cidr) :
    Decidable (p.Starved o families existing) :=
  decidable_of_iff (∃ f ∈ [Family.v4, Family.v6], families.wants f = true ∧ p.pick o existing f = none ∧ p.Full f) <| by
    constructor
    · rintro ⟨f, -, hf⟩
      exact ⟨f, hf⟩
    · rintro ⟨f, hf⟩
      exact ⟨f, by cases f <;> simp, hf⟩

theorem pick_eq_some (h : p.pick o existing f = some s) : s ∈ existing ∧ s.family = f ∧ p.Usable o s :=
  ⟨List.mem_of_find?_eq_some h, by simpa [pick] using List.find?_some h⟩

theorem pick_eq_none_iff : p.pick o existing f = none ↔ ∀ s ∈ existing, s.family = f → ¬ p.Usable o s := by
  simp [pick]

theorem pick_append_singleton (p : Pool) (o : String) (existing : List Cidr) (s : Cidr) (f : Family) :
    p.pick o (existing ++ [s]) f =
      (p.pick o existing f).or (if s.family = f ∧ p.Usable o s then some s else none) := by
  unfold pick
  rw [List.find?_append, List.find?_singleton]
  simp

theorem pick_append_singleton_eq_none_iff : p.pick o (existing ++ [s]) f = none ↔
    p.pick o existing f = none ∧ (s.family = f → ¬ p.Usable o s) := by
  rw [pick_append_singleton, Option.or_eq_none_iff]
  simp

theorem Retains.mem (h : p.Retains o families existing s) : s ∈ existing := (pick_eq_some h.2).1

theorem Retains.usable (h : p.Retains o families existing s) : p.Usable o s := (pick_eq_some h.2).2.2

/-! ## What is retained -/

/-- The subnets that an owner keeps of a list. -/
structure Picks (families : Families) (o : String) (p : Pool) (existing kept : List Cidr) : Prop where
  admits : families.Admits kept
  mem_kept : ∀ s, s ∈ kept ↔ p.Retains o families existing s

theorem picks_nil (families : Families) (o : String) (p : Pool) : Picks families o p [] [] where
  admits := families.admits_nil
  mem_kept := by simp [Retains, pick]

section Picks

variable (h : Picks families o p existing kept)
include h

theorem Picks.hasFamily_iff (hw : families.wants f = true) :
    hasFamily kept f = true ↔ (p.pick o existing f).isSome = true := by
  rw [Pool.hasFamily_iff, Option.isSome_iff_exists]
  constructor
  · rintro ⟨s, hs, rfl⟩
    exact ⟨s, ((h.mem_kept s).1 hs).2⟩
  · rintro ⟨s, hs⟩
    obtain ⟨-, rfl, -⟩ := pick_eq_some hs
    exact ⟨s, (h.mem_kept s).2 ⟨hw, hs⟩, rfl⟩

theorem Picks.mem_missing : f ∈ missing families kept ↔ families.wants f = true ∧ p.pick o existing f = none := by
  rw [Pool.mem_missing, ← Pool.hasFamily_iff]
  refine and_congr_right fun hw => ?_
  rw [h.hasFamily_iff hw, Bool.not_eq_true, Option.isSome_eq_false_iff, Option.isNone_iff_eq_none]

theorem Picks.again (hs : s ∈ kept) : Picks families o p (existing ++ [s]) kept := by
  have hsome : p.pick o existing s.family = some s := ((h.mem_kept s).1 hs).2
  refine ⟨h.admits, fun t => ?_⟩
  rw [h.mem_kept, Retains, Retains, pick_append_singleton]
  by_cases hst : s.family = t.family
  · rw [← hst, hsome, Option.some_or]
  · simp [hst]

theorem Picks.skip (hno : families.wants s.family = true → p.Usable o s → (p.pick o existing s.family).isSome = true) :
    Picks families o p (existing ++ [s]) kept := by
  refine ⟨h.admits, fun t => ?_⟩
  rw [h.mem_kept, Retains, Retains, pick_append_singleton]
  refine and_congr_right fun hw => ?_
  by_cases hst : s.family = t.family ∧ p.Usable o s
  · obtain ⟨hfam, husable⟩ := hst
    obtain ⟨u, hu⟩ := Option.isSome_iff_exists.1 (hno (hfam ▸ hw) husable)
    rw [← hfam, hu, Option.some_or]
  · rw [if_neg hst, Option.or_none]

theorem Picks.add (hw : families.wants s.family = true) (hf : hasFamily kept s.family = false)
    (husable : p.Usable o s) : Picks families o p (existing ++ [s]) (kept ++ [s]) := by
  have hnone : p.pick o existing s.family = none := by
    have hnot := (h.hasFamily_iff hw).not.1 (by rw [hf]; decide)
    simpa using hnot
  refine ⟨admits_append_singleton h.admits hw hf, fun t => ?_⟩
  rw [List.mem_append, List.mem_singleton, h.mem_kept, Retains, Retains, pick_append_singleton]
  by_cases hst : s.family = t.family
  · rw [← hst, hnone]
    simp [hw, husable, eq_comm]
  · have hts : t ≠ s := fun hts => hst (congrArg Cidr.family hts.symm)
    simp [hst, hts]

end Picks

/-- What an owner keeps of a list, taken from the pool `p`, in the pool `q`. -/
structure Picked (families : Families) (o : String) (p : Pool) (existing kept : List Cidr) (q : Pool) : Prop extends
    Picks families o p existing kept where
  coherent : q.Coherent
  usable : ∀ s, q.Usable o s ↔ p.Usable o s
  held : ∀ s, s ∈ q.heldBy o ↔ (s ∈ p.heldBy o ∧ s ∉ existing) ∨ s ∈ kept
  full : ∀ f, p.pick o existing f = none → (q.Full f ↔ p.Full f)

theorem picked_nil (h : p.Coherent) : Picked families o p [] [] p where
  toPicks := picks_nil families o p
  coherent := h
  usable := fun _ => Iff.rfl
  held := by simp
  full := fun _ _ => Iff.rfl

theorem Picked.again (h : Picked families o p existing kept q) (hs : s ∈ kept) :
    Picked families o p (existing ++ [s]) kept q := by
  have hmem : s ∈ existing := ((h.mem_kept s).1 hs).mem
  refine ⟨h.toPicks.again hs, h.coherent, h.usable, fun t => ?_, fun f hf => h.full f ?_⟩
  · rw [h.held t, List.mem_append, List.mem_singleton]
    by_cases hts : t = s
    · simp [hts, hs]
    · simp [hts]
  · exact (pick_append_singleton_eq_none_iff.1 hf).1

theorem Picked.giveBack (h : Picked families o p existing kept q) (hs : s ∉ kept)
    (hno : families.wants s.family = true → p.Usable o s → (p.pick o existing s.family).isSome = true) :
    Picked families o p (existing ++ [s]) kept (q.release o [s]).2 := by
  have hby : (Request.release o [s]).IsBy o := rfl
  refine ⟨h.toPicks.skip hno, h.coherent.release o [s], fun t => ?_, fun t => ?_, fun f hf => ?_⟩
  · rw [← h.usable t]
    exact h.coherent.usable_perform hby t
  · have hseen : (q.release o [s]).2.heldBy o = {t | t ∈ q.heldBy o ∧ t ∉ [s]} :=
      (h.coherent.seen_release o o [s]).trans (if_pos rfl)
    rw [hseen, Set.mem_ofPred_eq, h.held t, List.mem_append, List.mem_singleton]
    by_cases hts : t = s
    · simp [hts, hs]
    · simp [hts]
  · obtain ⟨hnone, hnot⟩ := pick_append_singleton_eq_none_iff.1 hf
    rw [full_release_one, h.full f hnone]
    exact fun hsf ho => hnot hsf ((h.usable s).1 (usable_of_owner? ho))

theorem Picked.reserve (h : Picked families o p existing kept q) (hw : families.wants s.family = true)
    (hf : hasFamily kept s.family = false) (husable : p.Usable o s) :
    Picked families o p (existing ++ [s]) (kept ++ [s]) (q.mark o [s]).2 := by
  have hby : (Request.mark o [s]).IsBy o := rfl
  refine ⟨h.toPicks.add hw hf husable, h.coherent.mark o [s], fun t => ?_, fun t => ?_, fun f hf' => ?_⟩
  · rw [← h.usable t]
    exact h.coherent.usable_perform hby t
  · rw [(h.coherent.mark o [s]).mem_heldBy_iff, owner?_mark_one, List.mem_append, List.mem_append, List.mem_singleton]
    by_cases hts : t = s
    · simp [hts, (h.usable s).2 husable]
    · have hheld := h.held t
      rw [h.coherent.mem_heldBy_iff] at hheld
      simp [hts, hheld]
  · obtain ⟨hnone, hnot⟩ := pick_append_singleton_eq_none_iff.1 hf'
    rw [full_mark_one o fun hsf => hnot hsf husable, h.full f hnone]

/-- Entry by entry: what is kept in each of the three ways to treat one holds when all are treated. -/
theorem keep_induct {I : List Cidr → List Cidr → Pool → Prop}
    (again : ∀ {existing kept q s}, Picked families o p existing kept q → s ∈ kept → I existing kept q →
      I (existing ++ [s]) kept q)
    (giveBack : ∀ {existing kept q s}, Picked families o p existing kept q → s ∉ kept →
      (families.wants s.family = true → p.Usable o s → (p.pick o existing s.family).isSome = true) →
        I existing kept q → I (existing ++ [s]) kept (q.release o [s]).2)
    (reserve : ∀ {existing kept q s}, Picked families o p existing kept q → families.wants s.family = true →
      hasFamily kept s.family = false → p.Usable o s → I existing kept q →
        I (existing ++ [s]) (kept ++ [s]) (q.mark o [s]).2)
    (rest : List Cidr) (h : Picked families o p existing kept q) (hI : I existing kept q) :
    Picked families o p (existing ++ rest) ((keep o families kept rest).runAlone q).1
        ((keep o families kept rest).runAlone q).2 ∧
      I (existing ++ rest) ((keep o families kept rest).runAlone q).1 ((keep o families kept rest).runAlone q).2 := by
  induction rest generalizing existing kept q with
  | nil =>
    rw [List.append_nil]
    exact ⟨h, hI⟩
  | cons s rest ih =>
    rw [show existing ++ s :: rest = existing ++ [s] ++ rest by simp, keep_cons]
    split
    · rename_i hs
      exact ih (h.again hs) (again h hs hI)
    · rename_i hs
      split
      · rename_i hnew
        obtain ⟨hw, hf⟩ : families.wants s.family = true ∧ hasFamily kept s.family = false := by
          simpa using hnew
        have hmark : (Request.mark o [s]).perform q = q.mark o [s] := rfl
        rw [runAlone_perform, hmark]
        cases hreply : (q.mark o [s]).1 with
        | ok _ =>
          have husable : p.Usable o s := (h.usable s).1 ((mark_one_ok_iff q o s).1 hreply)
          exact ih (h.reserve hw hf husable) (reserve h hw hf husable hI)
        | error e =>
          have hnot : ¬ q.Usable o s := by
            rw [← mark_one_ok_iff, hreply]
            exact fun hok => by cases hok
          have hno : families.wants s.family = true → p.Usable o s → (p.pick o existing s.family).isSome = true :=
            fun _ husable => absurd ((h.usable s).2 husable) hnot
          rw [mark_one_error hnot]
          exact ih (h.giveBack hs hno) (giveBack h hs hno hI)
      · rename_i hold
        have hno : families.wants s.family = true → p.Usable o s → (p.pick o existing s.family).isSome = true := by
          intro hw _
          rw [hw, Bool.true_and, Bool.not_eq_true', Bool.not_eq_false] at hold
          exact (h.toPicks.hasFamily_iff hw).1 hold
        exact ih (h.giveBack hs hno) (giveBack h hs hno hI)

/-- **An owner stays with the first subnet of each wanted family that it can have**, and gives back the others. -/
theorem keep_picked (rest : List Cidr) (h : Picked families o p existing kept q) :
    Picked families o p (existing ++ rest) ((keep o families kept rest).runAlone q).1
      ((keep o families kept rest).runAlone q).2 :=
  (keep_induct (I := fun _ _ _ => True) (fun _ _ _ => trivial) (fun _ _ _ _ => trivial) (fun _ _ _ _ _ => trivial) rest
    h trivial).1

/-! ## Both together -/

theorem Picked.starved_iff (h : Picked families o p existing kept q) :
    p.Starved o families existing ↔ ∃ f ∈ missing families kept, q.Full f := by
  constructor
  · rintro ⟨f, hw, hnone, hfull⟩
    exact ⟨f, h.toPicks.mem_missing.2 ⟨hw, hnone⟩, (h.full f hnone).2 hfull⟩
  · rintro ⟨f, hf, hfull⟩
    obtain ⟨hw, hnone⟩ := h.toPicks.mem_missing.1 hf
    exact ⟨f, hw, hnone, (h.full f hnone).1 hfull⟩

/-- What an owner is left with when subnets are given back and no new ones reserved. -/
def remains (p : Pool) (o : String) (families : Families) (existing : List Cidr) : Set Cidr :=
  {s | (s ∈ p.heldBy o ∧ s ∉ existing) ∨ p.Retains o families existing s}

/-- An assignment of the retained subnets, and of others in the wanted families without any. -/
structure Fits (p : Pool) (o : String) (families : Families) (existing : List Cidr) (a : Assignment) : Prop where
  serves : families.Serves a.subnets
  mem_subnets : ∀ s, s ∈ a.subnets ↔ p.Retains o families existing s ∨ s ∈ a.allocated
  untaken : ∀ s ∈ a.allocated, p.pick o existing s.family = none ∧ p.Usable o s

theorem Picks.fits {a : Assignment} (h : Picks families o p existing kept) (hserves : families.Serves a.subnets)
    (hsubnets : a.subnets = kept ++ a.allocated) (husable : ∀ s ∈ a.allocated, p.Usable o s) :
    Fits p o families existing a where
  serves := hserves
  mem_subnets := fun s => by rw [hsubnets, List.mem_append, h.mem_kept]
  untaken := by
    intro s hs
    refine ⟨?_, husable s hs⟩
    by_contra hsome
    obtain ⟨t, ht⟩ := Option.ne_none_iff_exists'.1 hsome
    obtain ⟨-, hfam, -⟩ := pick_eq_some ht
    have hw : families.wants s.family = true := hserves.1.2 s (hsubnets ▸ List.mem_append_right _ hs)
    have hkept : t ∈ kept := (h.mem_kept t).2 (by rw [Retains, hfam]; exact ⟨hw, ht⟩)
    have hnodup := hserves.1.1
    rw [hsubnets, List.map_append, List.nodup_append] at hnodup
    exact hnodup.2.2 t.family (List.mem_map_of_mem hkept) s.family (List.mem_map_of_mem hs) hfam

theorem Fits.allocated_eq_nil_iff {a : Assignment} (ha : Fits p o families existing a) :
    a.allocated = [] ↔ ∀ f, families.wants f = true → (p.pick o existing f).isSome = true := by
  constructor
  · intro hnone f hf
    obtain ⟨s, hs, rfl⟩ := ha.serves.2 f hf
    have hretains : p.Retains o families existing s := by
      rcases (ha.mem_subnets s).1 hs with hretains | hnew
      · exact hretains
      · rw [hnone] at hnew
        cases hnew
    rw [hretains.2]
    rfl
  · intro hall
    rw [List.eq_nil_iff_forall_not_mem]
    intro s hs
    have hsome := hall s.family (ha.serves.1.2 s ((ha.mem_subnets s).2 (Or.inr hs)))
    rw [(ha.untaken s hs).1] at hsome
    cases hsome

/-- An assignment of which the others are new. -/
structure Settles (p : Pool) (o : String) (families : Families) (existing : List Cidr) (a : Assignment) : Prop extends
    Fits p o families existing a where
  fresh : ∀ s ∈ a.allocated, s ∉ p.heldBy o

theorem Settles.not_remains {a : Assignment} (h : Settles p o families existing a) (hs : s ∈ a.allocated) :
    s ∉ p.remains o families existing := by
  rintro (⟨hheld, -⟩ | ⟨-, hsome⟩)
  · exact h.fresh s hs hheld
  · rw [(h.untaken s hs).1] at hsome
    cases hsome

/-- A coherent pool in which an owner can have the same subnets. -/
structure Accords (p : Pool) (o : String) (q : Pool) : Prop where
  coherent : q.Coherent
  usable : ∀ s, q.Usable o s ↔ p.Usable o s

theorem Accords.perform (h : p.Accords o q) {x : Request} (hx : x.IsBy o) : p.Accords o (x.perform q).2 where
  coherent := h.coherent.perform x
  usable s := (h.coherent.usable_perform hx s).trans (h.usable s)

theorem Coherent.usable_runAlone {α : Type} {program : Program α} (hp : p.Coherent)
    (h : program.Only (Request.IsBy o) fun _ _ => True) (s : Cidr) :
    (program.runAlone p).2.Usable o s ↔ p.Usable o s := by
  have hstep : ∀ (x : Request) (q : Pool), x.IsBy o → p.Accords o q → p.Accords o (x.perform q).2 ∧ True :=
    fun x q hx hq => ⟨hq.perform hx, trivial⟩
  have hsame : p.Accords o (program.runAlone p).2 := h.run hstep ⟨hp, fun _ => Iff.rfl⟩
  exact hsame.usable s

/-- **Reconciling an owner.** It fails exactly if a family is starved, and leaves what remains; else there is a new
subnet in each family without a retained one. -/
theorem reconcile_settles (hp : p.Coherent) (o : String) (families : Families) (existing : List Cidr) :
    ((reconcile o existing families).runAlone p).2.Coherent ∧
      match ((reconcile o existing families).runAlone p).1 with
      | .ok a => ¬ p.Starved o families existing ∧ Settles p o families existing a ∧
          ∀ s, s ∈ ((reconcile o existing families).runAlone p).2.heldBy o ↔
            s ∈ p.remains o families existing ∨ s ∈ a.allocated
      | .error _ => p.Starved o families existing ∧
          ((reconcile o existing families).runAlone p).2.heldBy o = p.remains o families existing := by
  have husable := hp.usable_runAlone (reconcile_only o families existing)
  have hnil : Picked families o p [] [] p := picked_nil hp
  have hpicked := keep_picked existing hnil
  rw [List.nil_append] at hpicked
  rw [reconcile_eq, runAlone_seq] at husable ⊢
  generalize (keep o families [] existing).runAlone p = first at hpicked husable
  obtain ⟨kept, q⟩ := first
  dsimp only at hpicked husable ⊢
  have hremains : q.heldBy o = p.remains o families existing := by
    ext s
    rw [hpicked.held, hpicked.mem_kept]
    rfl
  have hok := complete_ok_iff (o := o) hpicked.coherent hpicked.admits
  have halways := complete_always (o := o) (Set.empty_subset (q.heldBy o)) hpicked.admits
  obtain ⟨hcoherent, hpost⟩ := hpicked.coherent.runAlone_of_always halways
  refine ⟨hcoherent, ?_⟩
  generalize (complete o families kept).runAlone q = run at hok hpost husable hcoherent
  obtain ⟨result, q'⟩ := run
  dsimp only at hok hpost husable hcoherent ⊢
  cases result with
  | error e =>
    refine ⟨?_, Eq.trans hpost hremains⟩
    rw [hpicked.starved_iff]
    by_contra hnot
    obtain ⟨a, ⟨⟩⟩ := hok.2 fun f hf hfull => hnot ⟨f, hf, hfull⟩
  | ok a =>
    obtain ⟨hserves, hsubnets, hnew, hafter⟩ := hpost
    have hfits : Fits p o families existing a := by
      refine hpicked.toPicks.fits hserves hsubnets fun s hs => (husable s).1 (usable_of_owner? ?_)
      exact (hcoherent.mem_heldBy_iff o s).1 ((hafter s).2 (Or.inr hs))
    rw [hremains] at hnew hafter
    refine ⟨?_, ⟨hfits, fun s hs hheld => hnew s hs (Or.inl ⟨hheld, fun hex => ?_⟩)⟩, hafter⟩
    · rw [hpicked.starved_iff]
      rintro ⟨f, hf, hfull⟩
      exact hok.1 ⟨a, rfl⟩ f hf hfull
    · exact pick_eq_none_iff.1 (hfits.untaken s hs).1 s hex rfl (hfits.untaken s hs).2

/-! ## An owner that holds nothing -/

section Vacant

variable (hp : p.Coherent) (ho : p.heldBy o = ∅)
include hp ho

theorem Coherent.usable_iff_free (s : Cidr) : p.Usable o s ↔ p.Free s := by
  have hnot : p.owner? s ≠ some o := by
    intro hs
    have hmem := (hp.mem_heldBy_iff o s).2 hs
    rw [ho] at hmem
    exact hmem
  unfold Usable Free
  simp [hnot]

theorem Coherent.starved_iff_short : p.Starved o families existing ↔ p.Short families existing := by
  unfold Starved Short
  simp only [pick_eq_none_iff, hp.usable_iff_free ho]

theorem Coherent.remains_eq_empty_iff :
    p.remains o families existing = ∅ ↔ ¬ ∃ s ∈ existing, families.wants s.family = true ∧ p.Free s := by
  rw [Set.eq_empty_iff_forall_notMem]
  constructor
  · rintro hnone ⟨s, hs, hw, hfree⟩
    have hsome : p.pick o existing s.family ≠ none := by
      rw [ne_eq, pick_eq_none_iff]
      exact fun hall => hall s hs rfl ((hp.usable_iff_free ho s).2 hfree)
    obtain ⟨t, ht⟩ := Option.ne_none_iff_exists'.1 hsome
    obtain ⟨-, hfam, -⟩ := pick_eq_some ht
    exact hnone t (Or.inr ⟨by rw [hfam]; exact hw, by rw [hfam]; exact ht⟩)
  · rintro hnone s (⟨hheld, -⟩ | hretains)
    · rw [ho] at hheld
      exact hheld
    · exact hnone ⟨s, hretains.mem, hretains.1, (hp.usable_iff_free ho s).1 hretains.usable⟩

/-- **Reconciling an owner that holds nothing.** After a failure what is retained of the existing subnets is held:
something, if any of them is free and of a wanted family. -/
theorem reconcile_vacant (families : Families) (existing : List Cidr) :
    ((reconcile o existing families).runAlone p).2.Coherent ∧
      match ((reconcile o existing families).runAlone p).1 with
      | .ok a => ¬ p.Strands families existing ∧
          ∀ s, s ∈ ((reconcile o existing families).runAlone p).2.heldBy o ↔ s ∈ a.subnets
      | .error _ => ((reconcile o existing families).runAlone p).2.heldBy o = ∅ ↔ ¬ p.Strands families existing := by
  obtain ⟨hcoherent, hresult⟩ := reconcile_settles hp o families existing
  refine ⟨hcoherent, ?_⟩
  generalize (reconcile o existing families).runAlone p = run at hresult
  obtain ⟨result, q⟩ := run
  unfold Strands
  rw [hp.starved_iff_short ho] at hresult
  cases result with
  | ok a =>
    obtain ⟨henough, ha, hheld⟩ := hresult
    refine ⟨fun hstrands => henough hstrands.1, fun s => (hheld s).trans ?_⟩
    rw [ha.mem_subnets, remains, Set.mem_ofPred_eq, ho]
    simp
  | error e =>
    obtain ⟨hshort, hheld⟩ := hresult
    rw [hheld, hp.remains_eq_empty_iff ho]
    simp [hshort]

end Vacant

/-! ## An owner that holds all it needs -/

theorem mark_one_owned (h : p.owner? s = some o) : p.mark o [s] = (.ok (), p) := by
  unfold mark attemptAll
  rcases markOne_cases o p s with ⟨-, hm⟩ | ⟨place, -, hfree, -⟩ | ⟨hnot | ⟨x, hx, hother⟩, -⟩
  · rw [hm]
    rfl
  · rw [h] at hfree
    cases hfree
  · exact absurd (hosts_of_owner? h) hnot
  · rw [h] at hother
    exact absurd (Option.some.inj hother).symm hx

theorem keep_owned (rest : List Cidr) (hadmits : families.Admits (kept ++ rest))
    (hown : ∀ s ∈ rest, p.owner? s = some o) : (keep o families kept rest).runAlone p = (kept ++ rest, p) := by
  induction rest generalizing kept with
  | nil =>
    rw [List.append_nil]
    rfl
  | cons s rest ih =>
    have hsplit : kept ++ s :: rest = kept ++ [s] ++ rest := by simp
    have hnodup := hadmits.1
    rw [List.map_append, List.map_cons, List.nodup_append] at hnodup
    have hnew : ∀ t ∈ kept, t.family ≠ s.family := fun t ht =>
      hnodup.2.2 t.family (List.mem_map_of_mem ht) s.family List.mem_cons_self
    have hs : s ∉ kept := fun hmem => hnew s hmem rfl
    have hwants : families.wants s.family = true := hadmits.2 s (by simp)
    have hfamily : hasFamily kept s.family = false := by
      rw [← Bool.not_eq_true, hasFamily_iff]
      rintro ⟨t, ht, hfam⟩
      exact hnew t ht hfam
    have hmark : (Request.mark o [s]).perform p = (.ok (), p) := mark_one_owned (hown s List.mem_cons_self)
    rw [keep_cons, if_neg hs, if_pos (by rw [hwants, hfamily]; rfl), runAlone_perform, hmark, hsplit]
    apply ih
    · rw [← hsplit]
      exact hadmits
    · intro t ht
      exact hown t (List.mem_cons_of_mem _ ht)

theorem complete_served (h : families.Serves kept) : (complete o families kept).runAlone p = (.ok ⟨kept, []⟩, p) := by
  have hnone : missing families kept = [] := by
    apply List.eq_nil_iff_forall_not_mem.2
    intro f hf
    obtain ⟨hwants, hno⟩ := mem_missing.1 hf
    exact hno (h.2 f hwants)
  unfold complete
  split
  · rfl
  · rw [hnone]
    show (Except.ok (⟨kept ++ [], []⟩ : Assignment), p) = _
    rw [List.append_nil]

/-- **Reconciling an owner with what it holds leaves the pool exactly as it is**, and answers just that. -/
theorem reconcile_owned (hserves : families.Serves existing) (hown : ∀ s ∈ existing, p.owner? s = some o) :
    (reconcile o existing families).runAlone p = (.ok ⟨existing, []⟩, p) := by
  have hadmits : families.Admits ([] ++ existing) := hserves.1
  rw [reconcile_eq, runAlone_seq, keep_owned existing hadmits hown]
  exact complete_served hserves

end HostSubnets.Pool
