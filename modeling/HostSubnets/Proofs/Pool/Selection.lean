import HostSubnets.Proofs.Pool.Choice
import HostSubnets.Proofs.Pool.FirstFit
import HostSubnets.Proofs.Pool.Lists
import HostSubnets.Proofs.Pool.Result

/-!
# What reconciliation returns, entry by entry

The retained subnets of a list (`retained`) come in the order in which they are listed, and choosing them leaves the
ranges alone of any family in which there is none (`keep_retained`). So what allocation would have given there before
is what it gives now, and the new subnets follow in the order of the families (`Coherent.complete_runAlone`).

* `reconcile_exact` : the result of a run that succeeds, what is held then, and when it succeeds;
* `reconcile_rolls_back` : the error of a run that fails, and what is held then.
-/

namespace HostSubnets.Pool

open HostSubnets.Task

variable {p q : Pool} {o : String} {families : Families} {existing kept : List Cidr} {s : Cidr} {f : Family}

/-! ## The retained subnets in their order -/

/-- The subnets of a list that an owner stays with, in the order of their first entries. -/
def retained (p : Pool) (o : String) (families : Families) (existing : List Cidr) : List Cidr :=
  existing.eraseDups.filter fun s => p.Retains o families existing s

theorem mem_retained : s ∈ p.retained o families existing ↔ p.Retains o families existing s := by
  rw [retained, List.mem_filter, List.mem_eraseDups, decide_eq_true_eq]
  exact and_iff_right_of_imp Retains.mem

theorem eraseDups_append_singleton (l : List Cidr) (s : Cidr) :
    (l ++ [s]).eraseDups = if s ∈ l then l.eraseDups else l.eraseDups ++ [s] := by
  rw [List.eraseDups_append]
  by_cases hs : s ∈ l <;> simp [List.removeAll, List.eraseDups_cons, hs]

/-- Kept are entries of the list in its order, and ranges of families without a retained subnet are as they were. -/
structure InOrder (o : String) (p : Pool) (existing kept : List Cidr) (q : Pool) : Prop where
  listed : existing.eraseDups.filter (· ∈ kept) = kept
  ranges : ∀ f, p.pick o existing f = none → q.rangesOf f = p.rangesOf f

theorem inOrder_nil (o : String) (p : Pool) : InOrder o p [] [] p := ⟨rfl, fun _ _ => rfl⟩

section InOrder

variable (hpicked : Picked families o p existing kept q) (h : InOrder o p existing kept q)
include hpicked h

theorem InOrder.again (hs : s ∈ kept) : InOrder o p (existing ++ [s]) kept q := by
  have hmem : s ∈ existing := ((hpicked.mem_kept s).1 hs).mem
  refine ⟨?_, fun f hf => h.ranges f (pick_append_singleton_eq_none_iff.1 hf).1⟩
  rw [eraseDups_append_singleton, if_pos hmem]
  exact h.listed

theorem InOrder.giveBack (hs : s ∉ kept) : InOrder o p (existing ++ [s]) kept (q.release o [s]).2 := by
  refine ⟨?_, fun f hf => ?_⟩
  · rw [eraseDups_append_singleton]
    split
    · exact h.listed
    · rw [List.filter_append, h.listed]
      simp [hs]
  · obtain ⟨hnone, hnot⟩ := pick_append_singleton_eq_none_iff.1 hf
    have hfree : s.family = f → q.owner? s ≠ some o := fun hsf ho =>
      hnot hsf ((hpicked.usable s).1 (usable_of_owner? ho))
    rw [rangesOf_release_one hfree, h.ranges f hnone]

theorem InOrder.reserve (hw : families.wants s.family = true) (hfamily : hasFamily kept s.family = false)
    (husable : p.Usable o s) : InOrder o p (existing ++ [s]) (kept ++ [s]) (q.mark o [s]).2 := by
  -- the entry is new: of its family none that came before could be had
  have hnew : s ∉ existing := by
    intro hmem
    have hnone := (hpicked.toPicks.hasFamily_iff hw).not.1 (by rw [hfamily]; decide)
    rw [Option.not_isSome_iff_eq_none, pick_eq_none_iff] at hnone
    exact hnone s hmem rfl husable
  refine ⟨?_, fun f hf => ?_⟩
  · have hsame : existing.eraseDups.filter (· ∈ kept ++ [s]) = existing.eraseDups.filter (· ∈ kept) := by
      refine List.filter_congr fun t ht => ?_
      have hts : t ≠ s := fun hts => hnew (hts ▸ List.mem_eraseDups.1 ht)
      simp [hts]
    rw [eraseDups_append_singleton, if_neg hnew, List.filter_append, hsame, h.listed]
    simp
  · obtain ⟨hnone, hnot⟩ := pick_append_singleton_eq_none_iff.1 hf
    rw [rangesOf_mark_one o fun hsf => hnot hsf husable, h.ranges f hnone]

end InOrder

theorem keep_retained (hp : p.Coherent) (o : String) (families : Families) (existing : List Cidr) :
    Picked families o p existing ((keep o families [] existing).runAlone p).1
        ((keep o families [] existing).runAlone p).2 ∧
      ((keep o families [] existing).runAlone p).1 = p.retained o families existing ∧
      ∀ f, p.pick o existing f = none → ((keep o families [] existing).runAlone p).2.rangesOf f = p.rangesOf f := by
  have hnil : Picked families o p [] [] p := picked_nil hp
  have hkeep := keep_induct (I := InOrder o p) (fun hpicked hs h => h.again hpicked hs)
    (fun hpicked hs _ h => h.giveBack hpicked hs) (fun hpicked hw hf husable h => h.reserve hpicked hw hf husable)
    existing hnil (inOrder_nil o p)
  rw [List.nil_append] at hkeep
  obtain ⟨hpicked, horder⟩ := hkeep
  refine ⟨hpicked, ?_, horder.ranges⟩
  rw [retained, ← horder.listed]
  exact List.filter_congr fun s _ => decide_eq_decide.2 (hpicked.mem_kept s)

/-! ## The new subnets in their order -/

def offers (p : Pool) (absent : List Family) : List Cidr := absent.filterMap fun f => firstFree (p.rangesOf f)

theorem offers_congr {absent : List Family} (h : ∀ f ∈ absent, q.rangesOf f = p.rangesOf f) :
    q.offers absent = p.offers absent := List.filterMap_congr fun f hf => by rw [h f hf]

theorem map_offers {absent : List Family} (hranges : ∀ f ∈ absent, p.rangesOf f ≠ [])
    (hlen : (p.offers absent).length = absent.length) (o : String) :
    (p.offers absent).map (fun s => .ok (some s)) = absent.map fun f => (p.allocate o f).1 := by
  have hall : ∀ f ∈ absent, (firstFree (p.rangesOf f)).isSome = true := List.filterMap_length_eq_length.1 hlen
  clear hlen
  induction absent with
  | nil => rfl
  | cons f rest ih =>
    obtain ⟨hf, hrest⟩ := List.forall_mem_cons.1 hranges
    obtain ⟨hsome, hsomes⟩ := List.forall_mem_cons.1 hall
    obtain ⟨s, hs⟩ := Option.isSome_iff_exists.1 hsome
    have hcons : p.offers (f :: rest) = s :: p.offers rest := List.filterMap_cons_some hs
    rw [hcons, List.map_cons, List.map_cons, ih hrest hsomes, allocate_fst, if_neg hf, hs]

/-- How allocation for families ends, on top of the subnets `l`: with all that there are to be had, or with none,
since one of the families has no range; then `l` is given back as well. -/
inductive Filled (p : Pool) (o : String) (absent : List Family) (l : List Cidr) :
    Except PoolError (List Cidr) → Pool → Prop
  | found {q : Pool} (ranges : ∀ f ∈ absent, p.rangesOf f ≠ [])
      (held : q.allocated o = p.allocated o ++ p.offers absent) : Filled p o absent l (.ok (l ++ p.offers absent)) q
  | refused {q : Pool} {f : Family} (mem : f ∈ absent) (none : p.rangesOf f = [])
      (held : q.allocated o = (p.allocated o).filter (· ∉ l)) : Filled p o absent l (.error (.noRange f)) q

theorem Filled.pass {rest : List Family} {l : List Cidr} {result : Except PoolError (List Cidr)}
    (hranges : p.rangesOf f ≠ []) (hfull : firstFree (p.rangesOf f) = none) (h : Filled p o rest l result q) :
    Filled p o (f :: rest) l result q := by
  have hcons : p.offers (f :: rest) = p.offers rest := List.filterMap_cons_none hfull
  cases h with
  | found hothers hheld =>
    rw [← hcons] at hheld ⊢
    exact .found (List.forall_mem_cons.2 ⟨hranges, hothers⟩) hheld
  | refused hmem hnone hheld => exact .refused (List.mem_cons_of_mem f hmem) hnone hheld

theorem Coherent.filled_reserve (hp : p.Coherent) {place : Nat × Nat} {rest : List Family} {l : List Cidr}
    {result : Except PoolError (List Cidr)} (hranges : p.rangesOf f ≠ []) (hfirst : firstFree (p.rangesOf f) = some s)
    (hplace : locate s p.blocks = some place) (hfree : p.owner? s = none)
    (hothers : ∀ g ∈ rest, (⟨assign place (some o) p.blocks, hold o s p.held⟩ : Pool).rangesOf g = p.rangesOf g)
    (h : Filled ⟨assign place (some o) p.blocks, hold o s p.held⟩ o rest (l ++ [s]) result q) :
    Filled p o (f :: rest) l result q := by
  have hcons : p.offers (f :: rest) = s :: p.offers rest := List.filterMap_cons_some hfirst
  have hlist : (⟨assign place (some o) p.blocks, hold o s p.held⟩ : Pool).allocated o = p.allocated o ++ [s] :=
    (allocated_hold o o s p _).trans (if_pos rfl)
  cases h with
  | found hsome hheld =>
    rw [offers_congr hothers, hlist] at hheld
    rw [offers_congr hothers, List.append_assoc, List.singleton_append, ← hcons]
    refine .found (List.forall_mem_cons.2 ⟨hranges, fun g hg => hothers g hg ▸ hsome g hg⟩) ?_
    rw [hheld, hcons, List.append_assoc, List.singleton_append]
  | refused hmem hnone hheld =>
    refine .refused (List.mem_cons_of_mem f hmem) (hothers _ hmem ▸ hnone) ?_
    have hnew : ∀ t ∈ p.allocated o, t ≠ s := by
      rintro t ht rfl
      rw [hp.mirrored, hfree] at ht
      cases ht
    rw [hheld, hlist, List.filter_append]
    have hsame : (p.allocated o).filter (· ∉ l ++ [s]) = (p.allocated o).filter (· ∉ l) :=
      List.filter_congr fun t ht => by simp [hnew t ht]
    rw [hsame]
    simp

theorem Coherent.fill_runAlone (hp : p.Coherent) {absent : List Family} (hnodup : absent.Nodup) (l : List Cidr) :
    ((fill o l absent).runAlone p).2.Coherent ∧
      Filled p o absent l ((fill o l absent).runAlone p).1 ((fill o l absent).runAlone p).2 := by
  induction absent generalizing l p with
  | nil =>
    have hend : Filled p o [] l (.ok (l ++ [])) p := .found (by simp) (by simp [offers])
    rw [List.append_nil] at hend
    exact ⟨hp, hend⟩
  | cons f rest ih =>
    obtain ⟨hf, hrest⟩ := List.nodup_cons.1 hnodup
    rw [fill, runAlone_perform]
    rcases hp.allocate_firstFree o f with ⟨hnone, ha⟩ | ⟨hsome, hfull, ha⟩ |
      ⟨s, place, hsome, hfirst, hplace, hfree, -, ha⟩ <;> rw [show (Request.allocate o f).perform p = _ from ha]
    · obtain ⟨hcoherent, hback⟩ := hp.allocated_giveBack o l
      dsimp only
      rw [runAlone_seq]
      exact ⟨hcoherent, .refused List.mem_cons_self hnone hback⟩
    · obtain ⟨hcoherent, hend⟩ := ih hp hrest l
      exact ⟨hcoherent, hend.pass hsome hfull⟩
    · obtain ⟨hcoherent, hend⟩ := ih (hp.reserve hplace hfree o) hrest (l ++ [s])
      refine ⟨hcoherent, hp.filled_reserve hsome hfirst hplace hfree (fun g hg => ?_) hend⟩
      have hother := hp.rangesOf_allocate o fun hfg : f = g => hf (hfg ▸ hg)
      rw [ha] at hother
      exact hother

/-! ## What follows once the kept subnets are chosen -/

theorem length_missing_le (families : Families) (kept : List Cidr) :
    (missing families kept).length ≤ families.expected := by
  have hwanted : ([Family.v4, Family.v6].filter families.wants).length ≤ families.expected := by
    obtain ⟨v4, v6⟩ := families
    cases v4 <;> cases v6 <;> decide
  have hsub : (missing families kept).Sublist ([Family.v4, Family.v6].filter families.wants) := by
    refine List.monotone_filter_right _ fun f hf => ?_
    exact (Bool.and_eq_true_iff.1 hf).1
  exact hsub.length_le.trans hwanted

/-- How a run ends that completes the kept subnets: all that is missing was reserved, or nothing of it is, since a
family has no range or since there are fewer subnets than families that miss one. -/
inductive Completed (p : Pool) (o : String) (families : Families) (kept : List Cidr) :
    Except PoolError Assignment → Pool → Prop
  | done {q : Pool} {new : List Cidr}
      (replies : new.map (fun s => .ok (some s)) = (missing families kept).map fun f => (p.allocate o f).1)
      (held : q.allocated o = p.allocated o ++ new) : Completed p o families kept (.ok ⟨kept ++ new, new⟩) q
  | refused {q : Pool} {f : Family} (mem : f ∈ missing families kept) (none : p.rangesOf f = [])
      (held : q.allocated o = p.allocated o) : Completed p o families kept (.error (.noRange f)) q
  | exhausted {q : Pool} {n : Nat} (ranges : ∀ f ∈ missing families kept, p.rangesOf f ≠ [])
      (short : n < (missing families kept).length) (held : q.allocated o = p.allocated o) :
      Completed p o families kept (.error (.exhausted o families.expected (missing families kept).length n)) q

theorem Completed.of_ok {a : Assignment} (h : Completed p o families kept (.ok a) q) :
    a.subnets = kept ++ a.allocated ∧
      a.allocated.map (fun s => .ok (some s)) = (missing families kept).map fun f => (p.allocate o f).1 := by
  cases h with
  | done hreplies hheld => exact ⟨rfl, hreplies⟩

theorem Completed.of_error {e : PoolError} (h : Completed p o families kept (.error e) q) :
    q.allocated o = p.allocated o ∧
      ((∃ f ∈ missing families kept, p.rangesOf f = [] ∧ e = .noRange f) ∨
        (∀ f ∈ missing families kept, p.rangesOf f ≠ []) ∧ ∃ n < (missing families kept).length,
          e = .exhausted o families.expected (missing families kept).length n) := by
  cases h with
  | refused hmem hnone hheld => exact ⟨hheld, Or.inl ⟨_, hmem, hnone, rfl⟩⟩
  | exhausted hranges hshort hheld => exact ⟨hheld, Or.inr ⟨hranges, _, hshort, rfl⟩⟩

theorem Coherent.complete_runAlone (hp : p.Coherent) (hadmits : families.Admits kept) :
    ((complete o families kept).runAlone p).2.Coherent ∧
      Completed p o families kept ((complete o families kept).runAlone p).1
        ((complete o families kept).runAlone p).2 := by
  unfold complete
  split
  · rename_i hlen
    have hnone := missing_eq_nil_of_length hadmits hlen
    have hend : Completed p o families kept (.ok ⟨kept ++ [], []⟩) p := .done (by rw [hnone]; rfl) (by simp)
    rw [List.append_nil] at hend
    exact ⟨hp, hend⟩
  · rw [runAlone_seq]
    obtain ⟨hfilled, hfill⟩ := hp.fill_runAlone (o := o) (nodup_missing families kept) []
    generalize (fill o [] (missing families kept)).runAlone p = run at hfilled hfill
    obtain ⟨result, q⟩ := run
    dsimp only at hfilled hfill ⊢
    cases hfill with
    | refused hmem hnone hheld =>
      have hsame : q.allocated o = p.allocated o := by
        rw [hheld]
        simp
      exact ⟨hfilled, .refused hmem hnone hsame⟩
    | found hranges hheld =>
      rw [List.nil_append]
      dsimp only
      split
      · rename_i hlen
        exact ⟨hfilled, .done (map_offers hranges hlen o) hheld⟩
      · rename_i hlen
        have hle : (p.offers (missing families kept)).length ≤ (missing families kept).length :=
          List.length_filterMap_le _ _
        obtain ⟨hcoherent, hback⟩ := hfilled.allocated_giveBack o (p.offers (missing families kept))
        have hnew : ∀ s ∈ p.allocated o, s ∉ p.offers (missing families kept) := by
          have hnodup := hfilled.nodup_allocated o
          rw [hheld, List.nodup_append] at hnodup
          exact fun s hs hs' => hnodup.2.2 s hs s hs' rfl
        have hsame : (p.allocated o ++ p.offers (missing families kept)).filter
            (· ∉ p.offers (missing families kept)) = p.allocated o := by
          rw [List.filter_append, List.filter_eq_self.2 fun s hs => by simpa using hnew s hs]
          simp
        rw [runAlone_seq]
        exact ⟨hcoherent, .exhausted hranges (by omega) (hback.trans (hheld ▸ hsame))⟩

/-! ## Both together -/

theorem Coherent.reconcile_runAlone (hp : p.Coherent) (o : String) (families : Families) (existing : List Cidr) :
    ∃ q, Picked families o p existing (p.retained o families existing) q ∧
      (∀ f ∈ missing families (p.retained o families existing), q.rangesOf f = p.rangesOf f) ∧
      Completed q o families (p.retained o families existing) ((reconcile o existing families).runAlone p).1
        ((reconcile o existing families).runAlone p).2 := by
  obtain ⟨hpicked, hkept, hranges⟩ := keep_retained hp o families existing
  rw [reconcile_eq, runAlone_seq]
  rw [hkept] at hpicked ⊢
  refine ⟨_, hpicked, fun f hf => hranges f (hpicked.toPicks.mem_missing.1 hf).2, ?_⟩
  exact (hpicked.coherent.complete_runAlone hpicked.admits).2

theorem Coherent.not_full_iff (hp : p.Coherent) (hreaches : p.Reaches f) :
    ¬ p.Full f ↔ ∃ s, p.Free s ∧ s.family = f := by
  rw [← hp.supply_eq_empty_iff, ← ne_eq, ← Finset.nonempty_iff_ne_empty]
  exact exists_congr fun s => hreaches.mem_supply_iff

theorem Coherent.reconcile_ok_iff (hp : p.Coherent) (o : String) (families : Families) (existing : List Cidr)
    (hreaches : ∀ f, p.Reaches f) : (∃ a, ((reconcile o existing families).runAlone p).1 = .ok a) ↔
      ∀ f ∈ missing families (p.retained o families existing), ∃ s, p.Free s ∧ s.family = f := by
  obtain ⟨q, hpicked, -, -⟩ := hp.reconcile_runAlone o families existing
  obtain ⟨-, hresult⟩ := reconcile_settles hp o families existing
  have henough : ¬ p.Starved o families existing ↔
      ∀ f ∈ missing families (p.retained o families existing), ∃ s, p.Free s ∧ s.family = f := by
    rw [hpicked.starved_iff, not_exists]
    refine forall_congr' fun f => ?_
    rw [not_and]
    refine imp_congr_right fun hf => ?_
    rw [hpicked.full f (hpicked.toPicks.mem_missing.1 hf).2]
    exact hp.not_full_iff (hreaches f)
  generalize (reconcile o existing families).runAlone p = run at hresult
  obtain ⟨result, q'⟩ := run
  cases result with
  | ok a => exact ⟨fun _ => henough.1 hresult.1, fun _ => ⟨a, rfl⟩⟩
  | error e =>
    refine ⟨?_, fun hall => absurd hresult.1 (henough.2 hall)⟩
    rintro ⟨a, ⟨⟩⟩

/-- **Exactly what reconciliation returns, whatever was done to the pool before.** If it succeeds: the retained
subnets in the order of the list and then, for each wanted family without one, the subnet that allocation would have
given before, all of them new. They are the owner's then, nothing else of the list is, and no other owner's list is
touched. It succeeds exactly if each family without a retained subnet has a free one. -/
theorem reconcile_exact (requests : List Request) (o : String) (existing : List Cidr) (families : Families) :
    let p := empty.after requests
    let run := (reconcile o existing families).runAlone p
    let kept := p.retained o families existing
    let absent := missing families kept
    (∀ a, run.1 = .ok a →
      a.subnets = kept ++ a.allocated ∧
        a.allocated.map (fun s => .ok (some s)) = absent.map (fun f => (p.allocate o f).1) ∧
          (∀ s ∈ a.allocated, p.Free s) ∧ (∀ s ∈ a.subnets, s ∈ run.2.allocated o) ∧
            (∀ s ∈ existing, s ∉ kept → s ∉ run.2.allocated o) ∧
              ∀ x, x ≠ o → run.2.allocated x = p.allocated x) ∧
      ((∀ b ∈ p.blocks, ¬ b.Endless) →
        ((∃ a, run.1 = .ok a) ↔ ∀ f ∈ absent, ∃ s, p.Free s ∧ s.family = f)) := by
  intro p run kept absent
  have hp : p.Coherent := coherent_empty.after requests
  refine ⟨fun a hok => ?_, fun hends => ?_⟩
  · obtain ⟨q, hpicked, hranges, hend⟩ := hp.reconcile_runAlone o families existing
    obtain ⟨hsettles, hheld⟩ := hp.mem_heldBy_reconcile_iff hok
    obtain ⟨-, -, hothers⟩ := hp.alteredBy_runAlone (reconcile_only o families existing)
    rw [show ((reconcile o existing families).runAlone p).1 = .ok a from hok] at hend
    obtain ⟨hsubnets, hreplies⟩ := hend.of_ok
    refine ⟨hsubnets, hreplies.trans ?_, fun s hs => ?_, fun s hs => (hheld s).2 (Or.inl hs),
      fun s hs hnot hafter => ?_, hothers⟩
    · refine List.map_congr_left fun f hf => ?_
      rw [allocate_fst, allocate_fst, hranges f hf]
    · obtain ⟨hhosts, hfree | hown⟩ := (hsettles.untaken s hs).2
      · exact ⟨hhosts, hfree⟩
      · exact absurd ((hp.mem_heldBy_iff o s).2 hown) (hsettles.fresh s hs)
    · rcases (hheld s).1 hafter with hreturned | ⟨-, hunlisted⟩
      · rcases (hsettles.mem_subnets s).1 hreturned with hretains | hnew
        · exact hnot (mem_retained.2 hretains)
        · exact pick_eq_none_iff.1 (hsettles.untaken s hnew).1 s hs rfl (hsettles.untaken s hnew).2
      · exact hunlisted hs
  · exact hp.reconcile_ok_iff o families existing fun f => reaches_of_ends fun b hb _ => hends b hb

/-- Subnets of both families, of which another owner has the first and this one the second. -/
def twoOwners : List Request :=
  [.addRange ⟨.v4, 169869312, 19, by decide, by decide⟩ 21,
    .addRange ⟨.v6, 0xfd03 <<< 112, 77, by decide, by decide⟩ 78,
    .mark "b" [⟨.v4, 169869312, 21, by decide, by decide⟩], .allocate "a" .v4]

/-- Of a list with a repetition, a subnet of somebody else and one of no range, the third is retained: it comes before
the owner's own. The IPv6 subnet is new. -/
theorem twoOwners_reconciled :
    let first : Cidr := ⟨.v4, 169869312, 21, by decide, by decide⟩
    let second : Cidr := ⟨.v4, 169871360, 21, by decide, by decide⟩
    let third : Cidr := ⟨.v4, 169873408, 21, by decide, by decide⟩
    let outside : Cidr := ⟨.v4, 169934848, 21, by decide, by decide⟩
    let sixth : Cidr := ⟨.v6, 0xfd03 <<< 112, 78, by decide, by decide⟩
    let p := empty.after twoOwners
    let run := (reconcile "a" [first, third, second, third, outside] ⟨true, true⟩).runAlone p
    run.1 = .ok ⟨[third, sixth], [sixth]⟩ ∧ (p.allocate "a" .v6).1 = .ok (some sixth) ∧ p.Free sixth ∧
      sixth ∈ run.2.allocated "a" ∧ second ∈ p.allocated "a" ∧ second ∉ run.2.allocated "a" ∧
        run.2.allocated "b" = p.allocated "b" ∧ ∃ s, p.Free s ∧ s.family = .v6 := by
  intro first second third outside sixth p run
  have hkept : p.retained "a" ⟨true, true⟩ [first, third, second, third, outside] = [third] := by decide +kernel
  have hok : run.1 = .ok ⟨[third, sixth], [sixth]⟩ := by decide +kernel
  obtain ⟨hresult, hiff⟩ := reconcile_exact twoOwners "a" [first, third, second, third, outside] ⟨true, true⟩
  obtain ⟨-, hreplies, hfree, hheld, hback, hothers⟩ := hresult _ hok
  have habsent : missing ⟨true, true⟩ [third] = [.v6] := by decide
  rw [hkept, habsent] at hreplies hiff
  rw [hkept] at hback
  have hreply : (p.allocate "a" .v6).1 = .ok (some sixth) := (List.cons.inj hreplies).1.symm
  exact ⟨hok, hreply, hfree sixth List.mem_cons_self, hheld sixth (by decide), by decide +kernel,
    hback second (by decide) (by decide), hothers "b" (by decide),
    (hiff (by decide +kernel)).1 ⟨_, hok⟩ .v6 List.mem_cons_self⟩

/-! ## Runs that fail -/

theorem Coherent.reconcile_nil_error (hp : p.Coherent) {e : PoolError}
    (hfail : ((reconcile o [] families).runAlone p).1 = .error e) : ((reconcile o [] families).runAlone p).2 = p := by
  obtain ⟨hcoherent, hlayout, hothers⟩ := hp.alteredBy_runAlone (reconcile_only o families [])
  have hcomplete : reconcile o [] families = complete o families [] := reconcile_eq o [] families
  have hend := (hp.complete_runAlone (o := o) families.admits_nil).2
  rw [← hcomplete, hfail] at hend
  refine hcoherent.eq_of_allocated hp hlayout fun x => ?_
  by_cases hx : x = o
  · rw [hx, hend.of_error.1]
  · exact hothers x hx

/-- **A run that fails keeps nothing new.** What the owner holds then it held before or was listed, and no other list
is touched. A family without a retained subnet that has no range is reported if there is one; else how many subnets
there were for the families that miss one, and these are more. From an empty list the pool is as before. -/
theorem reconcile_rolls_back (requests : List Request) (o : String) (existing : List Cidr) (families : Families)
    (e : PoolError) :
    let p := empty.after requests
    let run := (reconcile o existing families).runAlone p
    let absent := missing families (p.retained o families existing)
    run.1 = .error e →
      (∀ s ∈ run.2.allocated o, s ∈ p.allocated o ∨ s ∈ existing) ∧
        (∀ x, x ≠ o → run.2.allocated x = p.allocated x) ∧
          ((∃ f, e = .noRange f) ↔ ∃ f ∈ absent, ∀ b ∈ p.blocks, b.network.family ≠ f) ∧
            ((∃ f ∈ absent, e = .noRange f) ∨
              ∃ n, e = .exhausted o families.expected absent.length n ∧ n < absent.length ∧
                absent.length ≤ families.expected) ∧
              (existing = [] → run.2 = p) := by
  intro p run absent hfail
  have hp : p.Coherent := coherent_empty.after requests
  obtain ⟨q, hpicked, hranges, hend⟩ := hp.reconcile_runAlone o families existing
  obtain ⟨-, -, hothers⟩ := hp.alteredBy_runAlone (reconcile_only o families existing)
  obtain ⟨-, hresult⟩ := reconcile_settles hp o families existing
  rw [show ((reconcile o existing families).runAlone p).1 = .error e from hfail] at hend hresult
  have hnone : ∀ f ∈ absent, q.rangesOf f = [] ↔ ∀ b ∈ p.blocks, b.network.family ≠ f := fun f hf => by
    rw [hranges f hf, rangesOf_eq_nil_iff]
  have hkind := hend.of_error.2
  refine ⟨fun s hs => ?_, hothers, ?_, ?_, ?_⟩
  · have hremains : s ∈ p.remains o families existing := hresult.2 ▸ hs
    exact hremains.imp And.left Retains.mem
  · rcases hkind with ⟨f, hf, hempty, he⟩ | ⟨hsome, n, -, he⟩
    · exact ⟨fun _ => ⟨f, hf, (hnone f hf).1 hempty⟩, fun _ => ⟨f, he⟩⟩
    · refine ⟨?_, fun ⟨f, hf, hempty⟩ => absurd ((hnone f hf).2 hempty) (hsome f hf)⟩
      rintro ⟨f, rfl⟩
      cases he
  · rcases hkind with ⟨f, hf, -, he⟩ | ⟨-, n, hn, he⟩
    · exact Or.inl ⟨f, hf, he⟩
    · exact Or.inr ⟨n, he, hn, length_missing_le families _⟩
  · rintro rfl
    exact hp.reconcile_nil_error hfail

/-- One IPv4 subnet and no IPv6 subnet are left, for an owner that has one of each. -/
def drained : List Request :=
  [.addRange ⟨.v4, 170000384, 20, by decide, by decide⟩ 21,
    .addRange ⟨.v6, 0xfd04 <<< 112, 78, by decide, by decide⟩ 78,
    .allocate "a" .v4, .allocate "a" .v6]

theorem drained_unchanged :
    let p := empty.after drained
    let run := (reconcile "a" [] ⟨true, true⟩).runAlone p
    run.1 = .error (.exhausted "a" 2 2 1) ∧ (p.allocate "a" .v4).1 ≠ .ok none ∧ run.2 = p := by
  intro p run
  have hfail : run.1 = .error (.exhausted "a" 2 2 1) := by decide +kernel
  obtain ⟨-, -, -, -, hsame⟩ := reconcile_rolls_back drained "a" [] ⟨true, true⟩ _ hfail
  exact ⟨hfail, by decide +kernel, hsame rfl⟩

end HostSubnets.Pool
