import HostSubnets.Pool.Reconcile
import HostSubnets.Proofs.Pool.Seen
import HostSubnets.Proofs.Task.Always
import Mathlib.Data.List.Perm.Subperm

/-!
# Reconciliation as the owner sees it

One owner's `reconcile`, with anything done by other owners in between. Of the existing subnets those that stay
are wanted, one of a family at most (`Kept`); new ones are reserved on top of them, and either one of each family
is there in the end or the new ones are gone again (`reconcile_always`). A set of subnets that the existing list
does not contend for (`Spares`) is held throughout.
-/

namespace HostSubnets

/-! ## Subnets by family -/

namespace Families

/-- Subnets of wanted families, at most one of each. -/
def Admits (families : Families) (l : List Cidr) : Prop :=
  (l.map Cidr.family).Nodup ∧ ∀ s ∈ l, families.wants s.family = true

/-- Subnets of wanted families, exactly one of each. -/
def Serves (families : Families) (l : List Cidr) : Prop :=
  families.Admits l ∧ ∀ f, families.wants f = true → ∃ s ∈ l, s.family = f

instance (families : Families) (l : List Cidr) : Decidable (families.Admits l) :=
  inferInstanceAs (Decidable (_ ∧ _))

instance (families : Families) (l : List Cidr) : Decidable (families.Serves l) :=
  decidable_of_iff (families.Admits l ∧ ∀ f ∈ [Family.v4, Family.v6], families.wants f = true → ∃ s ∈ l, s.family = f) <|
    and_congr_right fun _ => ⟨fun h f => h f (by cases f <;> simp), fun h f _ => h f⟩

theorem admits_nil (families : Families) : families.Admits [] :=
  ⟨List.nodup_nil, fun _ h => by cases h⟩

variable {families : Families} {l : List Cidr}

theorem Admits.eq_of_family (h : families.Admits l) {s t : Cidr} (hs : s ∈ l) (ht : t ∈ l)
    (hf : s.family = t.family) : s = t := List.inj_on_of_nodup_map h.1 hs ht hf

theorem Admits.nodup (h : families.Admits l) : l.Nodup := h.1.of_map _

end Families

namespace Pool

open HostSubnets.Task

theorem hasFamily_iff {l : List Cidr} {f : Family} : hasFamily l f = true ↔ ∃ s ∈ l, s.family = f := by
  simp [hasFamily]

theorem mem_missing {families : Families} {kept : List Cidr} {f : Family} :
    f ∈ missing families kept ↔ families.wants f = true ∧ ¬ ∃ s ∈ kept, s.family = f := by
  rw [missing, List.mem_filter, Bool.and_eq_true, Bool.not_eq_true', ← hasFamily_iff, Bool.not_eq_true]
  cases f <;> simp

theorem nodup_missing (families : Families) (kept : List Cidr) : (missing families kept).Nodup :=
  List.Nodup.filter _ (by decide)

variable {families : Families}

theorem admits_append_singleton {kept : List Cidr} {s : Cidr} (h : families.Admits kept)
    (hw : families.wants s.family = true) (hf : hasFamily kept s.family = false) :
    families.Admits (kept ++ [s]) := by
  have hnew : ∀ t ∈ kept, t.family ≠ s.family := by
    intro t ht heq
    have hhas := hasFamily_iff.2 ⟨t, ht, heq⟩
    rw [hf] at hhas
    cases hhas
  constructor
  · rw [List.map_append, List.map_singleton, List.nodup_append]
    refine ⟨h.1, List.nodup_singleton _, fun a ha b hb => ?_⟩
    obtain ⟨t, ht, rfl⟩ := List.mem_map.1 ha
    rw [List.mem_singleton.1 hb]
    exact hnew t ht
  · intro t ht
    rcases List.mem_append.1 ht with ht | ht
    · exact h.2 t ht
    · rw [List.mem_singleton.1 ht]
      exact hw

theorem serves_of_length {kept : List Cidr} (h : families.Admits kept)
    (hl : kept.length = families.expected) : families.Serves kept := by
  refine ⟨h, fun f hf => ?_⟩
  by_contra hno
  have hsub : kept.map Cidr.family ⊆ [Family.v4, Family.v6].filter fun g => families.wants g && g ≠ f := by
    intro g hg
    obtain ⟨s, hs, rfl⟩ := List.mem_map.1 hg
    have hne : s.family ≠ f := fun heq => hno ⟨s, hs, heq⟩
    rw [List.mem_filter, h.2 s hs]
    cases hfam : s.family <;> simp [← hfam, hne]
  have hle := (List.subperm_of_subset h.1 hsub).length_le
  rw [List.length_map, hl] at hle
  obtain ⟨v4, v6⟩ := families
  cases f <;> cases v4 <;> cases v6 <;> simp_all [Families.wants, Families.expected]

theorem missing_eq_nil_of_length {kept : List Cidr} (h : families.Admits kept)
    (hl : kept.length = families.expected) : missing families kept = [] := by
  rw [List.eq_nil_iff_forall_not_mem]
  intro f hf
  obtain ⟨hw, hnone⟩ := mem_missing.1 hf
  exact hnone ((serves_of_length h hl).2 f hw)

theorem serves_append {kept l : List Cidr} (h : families.Admits kept)
    (hl : l.map Cidr.family = missing families kept) : families.Serves (kept ++ l) := by
  refine ⟨⟨?_, ?_⟩, fun f hf => ?_⟩
  · rw [List.map_append, hl, List.nodup_append]
    refine ⟨h.1, nodup_missing families kept, fun a ha b hb hab => ?_⟩
    obtain ⟨s, hs, rfl⟩ := List.mem_map.1 ha
    rw [← hab] at hb
    exact (mem_missing.1 hb).2 ⟨s, hs, rfl⟩
  · intro s hs
    rcases List.mem_append.1 hs with hs | hs
    · exact h.2 s hs
    · have hm : s.family ∈ missing families kept := hl ▸ List.mem_map_of_mem hs
      exact (mem_missing.1 hm).1
  · by_cases hk : ∃ s ∈ kept, s.family = f
    · obtain ⟨s, hs, rfl⟩ := hk
      exact ⟨s, List.mem_append_left _ hs, rfl⟩
    · have hm : f ∈ l.map Cidr.family := hl ▸ mem_missing.2 ⟨hf, hk⟩
      obtain ⟨s, hs, rfl⟩ := List.mem_map.1 hm
      exact ⟨s, List.mem_append_right _ hs, rfl⟩

/-! ## One request -/

section Requests

variable {o : String} {inv : Set Cidr → Prop} {α : Type} {post : α → Set Cidr → Prop} {H : Set Cidr} {s : Cidr}

theorem always_mark_one {f : Except PoolError Unit → Program α}
    (hok : inv (insert s H) ∧ (f (.ok ())).Always (Request.Seen o) inv post (insert s H))
    (herr : s ∉ H → ∀ e, inv H ∧ (f (.error e)).Always (Request.Seen o) inv post H) :
    (perform (Request.mark o [s]) >>= f).Always (Request.Seen o) inv post H := by
  rw [always_bind, always_perform]
  intro reply H' hstep
  obtain ⟨hup, hdown, hreply⟩ := (if_pos rfl).mp hstep
  simp only [List.mem_singleton, forall_eq] at hdown hreply
  by_cases hs : s ∈ H'
  · obtain rfl : reply = .ok () := hreply.2 hs
    have hH' : H' = insert s H :=
      Set.Subset.antisymm (fun t ht => (hdown t ht).symm) (Set.insert_subset hs hup)
    rw [hH']
    exact hok
  · have hH' : H' = H :=
      Set.Subset.antisymm (fun t ht => (hdown t ht).resolve_right fun hts => hs (hts ▸ ht)) hup
    rw [hH'] at hs ⊢
    cases reply with
    | ok _ => exact absurd (hreply.1 rfl) (hH'.symm ▸ hs)
    | error e => exact herr hs e

theorem always_release_one {task : Program α} (hinv : inv (H \ {s}))
    (h : task.Always (Request.Seen o) inv post (H \ {s})) :
    (perform (Request.release o [s]) >>= fun _ => task).Always (Request.Seen o) inv post H := by
  rw [always_bind, always_perform]
  intro reply H' hstep
  obtain rfl : H' = H \ {s} := by
    refine hstep.trans ((if_pos rfl).trans ?_)
    ext t
    simp
  exact ⟨hinv, h⟩

theorem always_allocate_one {f : Family} {g : Except PoolError (Option Cidr) → Program α}
    (hsome : ∀ s, s ∉ H → s.family = f →
      inv (insert s H) ∧ (g (.ok (some s))).Always (Request.Seen o) inv post (insert s H))
    (hnone : inv H ∧ (g (.ok none)).Always (Request.Seen o) inv post H)
    (herr : ∀ e, inv H ∧ (g (.error e)).Always (Request.Seen o) inv post H) :
    (perform (Request.allocate o f) >>= g).Always (Request.Seen o) inv post H := by
  rw [always_bind, always_perform]
  intro reply H' hstep
  rcases reply with e | taken
  · obtain rfl : H' = H := hstep
    exact herr e
  · cases taken with
    | none =>
      obtain rfl : H' = H := hstep
      exact hnone
    | some s =>
      obtain ⟨hs, hf, rfl⟩ := (if_pos rfl).mp hstep
      exact hsome s hs hf

end Requests

/-! ## What stays -/

theorem keep_cons (o : String) (families : Families) (kept : List Cidr) (s : Cidr) (rest : List Cidr) :
    keep o families kept (s :: rest) =
      if s ∈ kept then keep o families kept rest
      else if families.wants s.family && !hasFamily kept s.family then
        perform (Request.mark o [s]) >>= fun reply =>
          match reply with
          | .ok _ => keep o families (kept ++ [s]) rest
          | .error _ => perform (Request.release o [s]) >>= fun _ => keep o families kept rest
      else perform (Request.release o [s]) >>= fun _ => keep o families kept rest := by
  rw [keep]
  split
  · rfl
  · split
    · refine congrArg (Task.ask _) (funext fun reply => ?_)
      cases reply <;> rfl
    · rfl

/-- Subnets that no other entry of a list competes with for the place of its family. -/
def Spares (families : Families) (l : List Cidr) (D : Set Cidr) : Prop :=
  ∀ s ∈ D, s ∈ l → families.wants s.family = true ∧ ∀ t ∈ l, t.family = s.family → t = s

theorem spares_empty (families : Families) (l : List Cidr) : Spares families l ∅ := fun _ h => h.elim

theorem spares_of_admits {l : List Cidr} (h : families.Admits l) (D : Set Cidr) : Spares families l D :=
  fun s _ hs => ⟨h.2 s hs, fun _ ht hf => h.eq_of_family ht hs hf⟩

/-- What an owner that held `H` holds when `kept` was chosen from its existing subnets. -/
structure Kept (families : Families) (existing : List Cidr) (H : Set Cidr) (kept : List Cidr) (B : Set Cidr) :
    Prop where
  admits : families.Admits kept
  mem_existing : ∀ s ∈ kept, s ∈ existing
  held_iff : ∀ s, s ∈ B ↔ (s ∈ H ∧ s ∉ existing) ∨ s ∈ kept

/-- How the choice from the rest of a list ends, where `kept` was chosen before and `H` is held: a subnet that is not
kept is held no longer, unless it is spared. -/
structure Chosen (families : Families) (kept rest : List Cidr) (D H : Set Cidr) (all : List Cidr) (B : Set Cidr) :
    Prop where
  spared : D ⊆ B
  admits : families.Admits all
  grown : kept ⊆ all
  mem : ∀ s ∈ all, s ∈ kept ∨ s ∈ rest
  held_iff : ∀ s, s ∈ B ↔ (s ∈ H ∧ s ∉ rest) ∨ s ∈ all

namespace Chosen

variable {kept rest all : List Cidr} {D H B : Set Cidr} {s : Cidr}

theorem again (h : Chosen families kept rest D H all B) (hs : s ∈ kept) :
    Chosen families kept (s :: rest) D H all B where
  spared := h.spared
  admits := h.admits
  grown := h.grown
  mem t ht := (h.mem t ht).imp_right (List.mem_cons_of_mem s)
  held_iff t := by
    rw [h.held_iff t, List.mem_cons]
    by_cases hts : t = s
    · simp [hts, h.grown hs]
    · simp [hts]

theorem giveBack (h : Chosen families kept rest D (H \ {s}) all B) : Chosen families kept (s :: rest) D H all B where
  spared := h.spared
  admits := h.admits
  grown := h.grown
  mem t ht := (h.mem t ht).imp_right (List.mem_cons_of_mem s)
  held_iff t := by
    rw [h.held_iff t, Set.mem_sdiff_singleton, List.mem_cons]
    tauto

theorem take (h : Chosen families (kept ++ [s]) rest D (insert s H) all B) :
    Chosen families kept (s :: rest) D H all B where
  spared := h.spared
  admits := h.admits
  grown _ ht := h.grown (List.mem_append_left _ ht)
  mem t ht := by
    have hcases := h.mem t ht
    simp only [List.mem_append, List.mem_cons] at hcases ⊢
    tauto
  held_iff t := by
    have hs : s ∈ all := h.grown (by simp)
    rw [h.held_iff t, Set.mem_insert_iff, List.mem_cons]
    by_cases hts : t = s
    · simp [hts, hs]
    · simp [hts]

end Chosen

variable {o : String} {D H : Set Cidr}

theorem keep_always (existing : List Cidr) {kept : List Cidr} (hD : D ⊆ H) (hkept : ∀ s ∈ kept, s ∈ H)
    (hadmits : families.Admits kept)
    (hspares : ∀ s ∈ D, s ∈ existing → families.wants s.family = true ∧
      ∀ t ∈ kept ++ existing, t.family = s.family → t = s) :
    (keep o families kept existing).Always (Request.Seen o) (D ⊆ ·) (Chosen families kept existing D H) H := by
  induction existing generalizing kept H with
  | nil =>
    refine ⟨hD, hadmits, fun s hs => hs, fun s hs => Or.inl hs, fun s => ?_⟩
    have := hkept s
    simp only [List.not_mem_nil, not_false_eq_true, and_true]
    tauto
  | cons s rest ih =>
    have hrest : ∀ t ∈ D, t ∈ rest → families.wants t.family = true ∧
        ∀ u ∈ kept ++ rest, u.family = t.family → u = t := by
      intro t ht hr
      obtain ⟨hw, huniq⟩ := hspares t ht (List.mem_cons_of_mem _ hr)
      refine ⟨hw, fun u hu => huniq u ?_⟩
      rw [List.mem_append] at hu ⊢
      exact hu.imp_right (List.mem_cons_of_mem _)
    have hback : s ∉ kept → s ∉ D →
        (perform (Request.release o [s]) >>= fun _ => keep o families kept rest).Always (Request.Seen o)
          (D ⊆ ·) (Chosen families kept (s :: rest) D H) H := by
      intro hnot hsD
      have hD' : D ⊆ H \ {s} := fun t ht => ⟨hD ht, fun hts => hsD (hts ▸ ht)⟩
      have hkept' : ∀ t ∈ kept, t ∈ H \ {s} := fun t ht => ⟨hkept t ht, fun hts => hnot (hts ▸ ht)⟩
      exact always_release_one hD' ((ih hD' hkept' hadmits hrest).imp fun _ _ h => h.giveBack)
    rw [keep_cons]
    split
    · rename_i hs
      exact (ih hD hkept hadmits hrest).imp fun _ _ h => h.again hs
    · rename_i hs
      split
      · rename_i husable
        obtain ⟨hw, hf⟩ : families.wants s.family = true ∧ hasFamily kept s.family = false := by
          simpa using husable
        have hD' : D ⊆ insert s H := hD.trans (Set.subset_insert s H)
        refine always_mark_one ⟨hD', ?_⟩ fun hsH e => ⟨hD, hback hs fun hsD => hsH (hD hsD)⟩
        have hkept' : ∀ t ∈ kept ++ [s], t ∈ insert s H := by
          intro t ht
          rcases List.mem_append.1 ht with ht | ht
          · exact Set.mem_insert_of_mem s (hkept t ht)
          · exact Or.inl (List.mem_singleton.1 ht)
        have hspares' : ∀ t ∈ D, t ∈ rest → families.wants t.family = true ∧
            ∀ u ∈ (kept ++ [s]) ++ rest, u.family = t.family → u = t := by
          rw [List.append_assoc, List.singleton_append]
          exact fun t ht hr => hspares t ht (List.mem_cons_of_mem _ hr)
        exact (ih hD' hkept' (admits_append_singleton hadmits hw hf) hspares').imp fun _ _ h => h.take
      · rename_i hnot
        -- Not even tried: its family is not wanted, or another subnet has the place already.
        refine hback hs fun hsD => ?_
        obtain ⟨hw, huniq⟩ := hspares s hsD List.mem_cons_self
        rw [hw, Bool.true_and, Bool.not_eq_true', Bool.not_eq_false, hasFamily_iff] at hnot
        obtain ⟨t, ht, hfam⟩ := hnot
        exact hs (huniq t (List.mem_append_left _ ht) hfam ▸ ht)

/-! ## New subnets -/

theorem giveBack_always {B : Set Cidr} (l : List Cidr) (hDB : D ⊆ B) (hBH : B ⊆ H)
    (hH : ∀ s ∈ H, s ∈ B ∨ s ∈ l) (hl : ∀ s ∈ l, s ∉ B) :
    (giveBack o l).Always (Request.Seen o) (D ⊆ ·) (fun _ H' => H' = B) H := by
  induction l generalizing H with
  | nil => exact Set.Subset.antisymm (fun s hs => (hH s hs).elim id fun h => by cases h) hBH
  | cons s rest ih =>
    have hB' : B ⊆ H \ {s} := fun t ht => ⟨hBH ht, fun hts => hl s List.mem_cons_self (hts ▸ ht)⟩
    refine always_release_one (hDB.trans hB') (ih hB' ?_ fun t ht => hl t (List.mem_cons_of_mem _ ht))
    rintro t ⟨ht, hne⟩
    rcases hH t ht with htB | hmem
    · exact Or.inl htB
    · exact Or.inr ((List.mem_cons.1 hmem).resolve_left hne)

/-- Allocation on top of what is held: new subnets for some of the families in turn, or none at all. -/
theorem fill_always {B : Set Cidr} (absent : List Family) {l : List Cidr} (hDB : D ⊆ B)
    (hH : ∀ s, s ∈ H ↔ s ∈ B ∨ s ∈ l) (hl : ∀ s ∈ l, s ∉ B) :
    (fill o l absent).Always (Request.Seen o) (D ⊆ ·)
      (fun result H' => match result with
        | .ok all => (∀ s, s ∈ H' ↔ s ∈ B ∨ s ∈ all) ∧ (∀ s ∈ all, s ∉ B) ∧
            ∃ new, all = l ++ new ∧ (new.map Cidr.family).Sublist absent
        | .error _ => H' = B) H := by
  have hDH : D ⊆ H := fun s hs => (hH s).2 (Or.inl (hDB hs))
  induction absent generalizing l H with
  | nil => exact ⟨hH, hl, [], (List.append_nil l).symm, List.Sublist.slnil⟩
  | cons f rest ih =>
    rw [fill]
    refine always_allocate_one (fun s hs hf => ?_) ⟨hDH, ?_⟩ fun e => ⟨hDH, ?_⟩
    · have hD' : D ⊆ insert s H := hDH.trans (Set.subset_insert s H)
      have hsB : s ∉ B := fun hsB => hs ((hH s).2 (Or.inl hsB))
      refine ⟨hD', (ih (l := l ++ [s]) ?_ ?_ hD').imp ?_⟩
      · intro t
        rw [Set.mem_insert_iff, hH, List.mem_append, List.mem_singleton]
        tauto
      · intro t ht
        rcases List.mem_append.1 ht with ht | ht
        · exact hl t ht
        · exact List.mem_singleton.1 ht ▸ hsB
      · rintro (e | all) H' hpost
        · exact hpost
        · obtain ⟨hH', hnew, new, rfl, hsub⟩ := hpost
          refine ⟨hH', hnew, s :: new, by rw [List.append_assoc, List.singleton_append], ?_⟩
          rw [List.map_cons, hf]
          exact hsub.cons_cons f
    · refine (ih hH hl hDH).imp ?_
      rintro (e | all) H' hpost
      · exact hpost
      · obtain ⟨hH', hnew, new, rfl, hsub⟩ := hpost
        exact ⟨hH', hnew, new, rfl, hsub.cons f⟩
    · refine (always_bind _ _ _).2 ((giveBack_always l hDB ?_ ?_ hl).imp fun _ H' hH' => hH')
      · exact fun s hs => (hH s).2 (Or.inl hs)
      · exact fun s hs => (hH s).1 hs

/-! ## Both together -/

def complete (o : String) (families : Families) (kept : List Cidr) : Program (Except PoolError Assignment) :=
  if kept.length = families.expected then pure (.ok ⟨kept, []⟩)
  else
    fill o [] (missing families kept) >>= fun result =>
      match result with
      | .error e => pure (.error e)
      | .ok l =>
        if l.length = (missing families kept).length then pure (.ok ⟨kept ++ l, l⟩)
        else giveBack o l >>= fun _ =>
          pure (.error (.exhausted o families.expected (missing families kept).length l.length))

theorem reconcile_eq (o : String) (existing : List Cidr) (families : Families) :
    reconcile o existing families = keep o families [] existing >>= complete o families := by
  refine congrArg (keep o families [] existing >>= ·) (funext fun kept => ?_)
  unfold complete
  split
  · rfl
  · refine congrArg (fill o [] (missing families kept) >>= ·) (funext fun result => ?_)
    cases result with
    | error e => rfl
    | ok l => rfl

theorem complete_always {kept : List Cidr} {B : Set Cidr} (hDB : D ⊆ B) (hadmits : families.Admits kept) :
    (complete o families kept).Always (Request.Seen o) (D ⊆ ·)
      (fun result H' => match result with
        | .ok a => families.Serves a.subnets ∧ a.subnets = kept ++ a.allocated ∧ (∀ s ∈ a.allocated, s ∉ B) ∧
            ∀ s, s ∈ H' ↔ s ∈ B ∨ s ∈ a.allocated
        | .error _ => H' = B) B := by
  unfold complete
  split
  · rename_i hlen
    exact ⟨serves_of_length hadmits hlen, by simp, by simp, by simp⟩
  · rw [always_bind]
    refine (fill_always (missing families kept) hDB (by simp) (by simp)).imp ?_
    rintro (e | l) H' hfill
    · exact hfill
    · obtain ⟨hH', hnew, new, hl, hsub⟩ := hfill
      obtain rfl : l = new := hl
      dsimp only
      split
      · rename_i hlen
        have hfam : l.map Cidr.family = missing families kept :=
          hsub.eq_of_length (by rw [List.length_map, hlen])
        exact ⟨serves_append hadmits hfam, rfl, hnew, hH'⟩
      · refine (always_bind _ _ _).2 ((giveBack_always l hDB ?_ ?_ hnew).imp ?_)
        · exact fun s hs => (hH' s).2 (Or.inl hs)
        · exact fun s hs => (hH' s).1 hs
        · rintro _ H2 rfl
          exact rfl

/-- What an owner that held `H` holds after reconciling its existing subnets, by the result. -/
def Settled (families : Families) (existing : List Cidr) (D H : Set Cidr) (result : Except PoolError Assignment)
    (H' : Set Cidr) : Prop :=
  ∃ kept B, Kept families existing H kept B ∧ D ⊆ B ∧
    match result with
    | .ok a => families.Serves a.subnets ∧ a.subnets = kept ++ a.allocated ∧ (∀ s ∈ a.allocated, s ∉ B) ∧
        ∀ s, s ∈ H' ↔ s ∈ B ∨ s ∈ a.allocated
    | .error _ => H' = B

/-- **Reconciling keeps the spared subnets throughout and ends with one subnet of each wanted family, or with
kept ones alone.** -/
theorem reconcile_always (existing : List Cidr) (hD : D ⊆ H) (hspares : Spares families existing D) :
    (reconcile o existing families).Always (Request.Seen o) (D ⊆ ·)
      (fun result H' => D ⊆ H' ∧ Settled families existing D H result H') H := by
  rw [reconcile_eq, always_bind]
  refine (keep_always existing hD (by simp) (Families.admits_nil families) (by simpa [Spares] using hspares)).imp ?_
  intro kept B h
  have hkept : Kept families existing H kept B := ⟨h.admits, fun s hs => by simpa using h.mem s hs, h.held_iff⟩
  refine ((complete_always h.spared h.admits).and_inv h.spared).imp ?_
  rintro result H' ⟨hpost, hDH'⟩
  exact ⟨hDH', kept, B, hkept, h.spared, hpost⟩

/-! ## The requests made -/

section Requests

variable (o : String) (families : Families)

theorem keep_only (existing kept : List Cidr) :
    (keep o families kept existing).Only (Request.IsBy o) fun _ _ => True := by
  induction existing generalizing kept with
  | nil => exact only_pure _
  | cons s rest ih =>
    have hrelease : (perform (Request.release o [s]) >>= fun _ => keep o families kept rest).Only
        (Request.IsBy o) fun _ _ => True := only_ask rfl fun _ _ => ih kept
    rw [keep_cons]
    split
    · exact ih kept
    · split
      · refine only_ask rfl fun reply _ => ?_
        cases reply with
        | ok _ => exact ih _
        | error e => exact hrelease
      · exact hrelease

theorem giveBack_only (l : List Cidr) : (giveBack o l).Only (Request.IsBy o) fun _ _ => True := by
  induction l with
  | nil => exact only_pure _
  | cons s rest ih => exact only_ask rfl fun _ _ => ih

theorem fill_only (absent : List Family) (l : List Cidr) :
    (fill o l absent).Only (Request.IsBy o) fun _ _ => True := by
  induction absent generalizing l with
  | nil => exact only_pure _
  | cons f rest ih =>
    refine only_ask rfl fun reply _ => ?_
    rcases reply with e | taken
    · exact only_bind (giveBack_only o l) fun _ => only_pure _
    · cases taken with
      | none => exact ih l
      | some s => exact ih _

theorem reconcile_only (existing : List Cidr) :
    (reconcile o existing families).Only (Request.IsBy o) fun _ _ => True := by
  refine only_bind (keep_only o families existing []) fun kept => ?_
  dsimp only
  split
  · exact only_pure _
  · refine only_bind (fill_only o _ []) fun result => ?_
    cases result with
    | error e => exact only_pure _
    | ok l =>
      dsimp only
      split
      · exact only_pure _
      · exact only_bind (giveBack_only o l) fun _ => only_pure _

end Requests

end Pool

end HostSubnets
