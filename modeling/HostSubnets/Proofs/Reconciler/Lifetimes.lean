import HostSubnets.Proofs.Reconciler.Restart

/-!
# Names that are used again

A node can be removed and another one of its name come up before the deletion is handled. The notification says the
name alone, so it takes the subnets of whoever has the name by then. What is followed are the names that were
`stripped` in this way and have not been brought to their subnets again: `declared_held_iff_not_stripped`.
-/

namespace HostSubnets.Reconciler

open HostSubnets.Task

variable {σ : Type} {ops : StoreOps σ} {records : σ → Records} {r : Reconciler} {n m : Node} {w : World σ}

/-! ## Events -/

/-- A world, the names of deletions that were not handled yet, and the names of nodes that a deletion from before
their time left without subnets that they declare. -/
structure Lifetimes (σ : Type) where
  world : World σ
  owed : List String
  stripped : Set String

/-- One event, handled on its own. Deletions are reported by a stream of their own, in any order and at any time after
they happened. -/
inductive Lifetimes.Step (r : Reconciler) (ops : StoreOps σ) (records : σ → Records) (t : Lifetimes σ) :
    Lifetimes σ → Prop where
  | faults {s : σ} (hs : records s = records t.world.store) : Step r ops records t { t with world.store := s }
  | appear {s : σ} {n : Node} (hnew : (records t.world.store).find? n.key = none)
      (hundeclared : r.declaredSubnets n = []) (hs : records s = (records t.world.store).insert n.key n) :
      Step r ops records t { t with world.store := s }
  | remove {s : σ} {name : String} (hs : records s = (records t.world.store).erase name)
      (hpresent : ((records t.world.store).find? name).isSome = true) :
      Step r ops records t ⟨{ t.world with store := s }, name :: t.owed, {x | x ∈ t.stripped ∧ x ≠ name}⟩
  /-- The report of a removal is handled, whatever has the name now. -/
  | delete {name : String} (howed : name ∈ t.owed) :
      Step r ops records t ⟨((r.delete name).runAlone ops t.world).2, t.owed.erase name, {x | x ∈ t.stripped ∨
        (x = name ∧ ∃ n, (records t.world.store).find? name = some n ∧ r.declaredSubnets n ≠ [])}⟩
  /-- A node is handled from its current record. -/
  | update {n : Node} (hn : (records t.world.store).find? n.key = some n) :
      Step r ops records t ⟨((r.addOrUpdate n).runAlone ops t.world).2, t.owed, {x | x ∈ t.stripped ∧
        ¬ (x = n.key ∧ ((r.addOrUpdate n).runAlone ops t.world).1 = .ok ())}⟩

def Lifetimes.start (r : Reconciler) (ops : StoreOps σ) (s : σ) : Lifetimes σ :=
  ⟨(r.start.runAlone ops (World.start s)).2, [], ∅⟩

/-! ## Records and views -/

def Assigned (r : Reconciler) (n : Node) : Prop :=
  r.declaredSubnets n = [] ∨ (n.isUnmanaged = false ∧ r.network.perNode = true ∧
    r.network.families.Serves (r.declaredSubnets n) ∧ r.declaredId n = some r.network.id)

/-- What is known of a name: it holds what its record declares, or it was stripped of some of it. -/
structure View.Tracked (r : Reconciler) (stripped : Prop) (v : View) : Prop where
  assigned : ∀ n, v.record = some n → r.Assigned n
  covered : ¬ stripped → ∀ n, v.record = some n → ∀ u ∈ r.declaredSubnets n, u ∈ v.held
  bared : stripped → ∃ n, v.record = some n ∧ ∃ u ∈ r.declaredSubnets n, u ∉ v.held

theorem View.Tracked.congr {v : View} {P Q : Prop} (h : v.Tracked r P) (hiff : Q ↔ P) : v.Tracked r Q := by
  rw [hiff]
  exact h

theorem tracked_of_undeclared {stripped : Prop} {H : Set Cidr} (h : r.declaredSubnets n = []) (hnot : ¬ stripped) :
    View.Tracked r stripped ⟨H, some n⟩ where
  assigned := fun m hm => Option.some.inj hm ▸ Or.inl h
  covered := by
    rintro - m hm u hu
    obtain rfl := Option.some.inj hm
    rw [h] at hu
    cases hu
  bared := fun hs => absurd hs hnot

theorem tracked_of_absent {stripped : Prop} {H : Set Cidr} (hnot : ¬ stripped) :
    View.Tracked r stripped ⟨H, none⟩ where
  assigned := fun m hm => by cases hm
  covered := fun _ m hm => by cases hm
  bared := fun hs => absurd hs hnot

theorem View.Tracked.not_stripped {stripped : Prop} {v : View} (h : v.Tracked r stripped) (hn : v.record = some n)
    (hundeclared : r.declaredSubnets n = []) : ¬ stripped := by
  intro hs
  obtain ⟨m, hm, u, hu, -⟩ := h.bared hs
  obtain rfl := Option.some.inj (hn.symm.trans hm)
  rw [hundeclared] at hu
  cases hu

/-! ## A run for the current record -/

theorem declaredSubnets_declare_none (h : Written (r.declare none) n m) :
    r.declaredSubnets m = r.declaredSubnets n := by
  obtain ⟨version, rfl⟩ := h
  have hread : Node.subnets? r.network.name { n.changeAnnotations (r.declare none) with version } =
      n.subnets? r.network.name := Node.subnets?_setNetworkId r.network.name r.network.name r.network.id n
  unfold declaredSubnets
  rw [hread]

/-- Of subnets of different families, those that can be had are retained. -/
theorem retains_of_usable {p : Pool} {o : String} {families : Families} {existing : List Cidr} {s : Cidr}
    (hadmits : families.Admits existing) (hs : s ∈ existing) (husable : p.Usable o s) :
    p.Retains o families existing s := by
  refine ⟨hadmits.2 s hs, ?_⟩
  cases hpick : p.pick o existing s.family with
  | none => exact absurd husable (Pool.pick_eq_none_iff.1 hpick s hs rfl)
  | some t =>
    obtain ⟨ht, hfamily, -⟩ := Pool.pick_eq_some hpick
    rw [hadmits.eq_of_family ht hs hfamily]

theorem exists_not_retained {d : Demand} {accepting : Prop} {e : ControlError} {v : View}
    {p : Pool} (hd : r.demand? n = some d) (hserves : d.families.Serves d.existing)
    (hid : r.declaredId n = some r.network.id) (hout : r.Outcome n d p n accepting (.error e) v) :
    v = ⟨p.remains n.key d.families d.existing, some n⟩ ∧
      ∃ u ∈ d.existing, ¬ p.Retains n.key d.families d.existing u := by
  cases hout with
  | starved h =>
    obtain ⟨f, hf, hnone, -⟩ := h
    obtain ⟨u, hu, rfl⟩ := hserves.2 f hf
    refine ⟨rfl, u, hu, fun hretains => ?_⟩
    rw [hretains.2] at hnone
    cases hnone
  | @unwritten _ a h ha hother hrefused =>
    refine ⟨rfl, ?_⟩
    by_contra hall
    push Not at hall
    refine hother ((confirms_iff hd ha.toFits).2 ⟨fun f hf => ?_, hserves.1.nodup, hall, fun _ => hid⟩)
    obtain ⟨u, hu, rfl⟩ := hserves.2 f hf
    rw [(hall u hu).2]
    rfl

theorem tracked_of_supplied {stripped : Prop} {v : View} (hm : v.record = some m)
    (hheld : v.held = w.cluster.heldBy m.key) (hmanaged : m.isUnmanaged = false) (hper : r.network.perNode = true)
    (h : r.Supplied m w) (hnot : ¬ stripped) : v.Tracked r stripped := by
  have hd := demand?_managed hmanaged hper
  refine ⟨fun c hc => ?_, fun _ c hc => ?_, fun hs => absurd hs hnot⟩
  · obtain rfl := Option.some.inj (hm.symm.trans hc)
    exact Or.inr ⟨hmanaged, hper, h.serves _ hd, h.id hmanaged⟩
  · obtain rfl := Option.some.inj (hm.symm.trans hc)
    rw [hheld]
    exact h.held _ hd

theorem tracked_of_error {stripped accepting : Prop} {e : ControlError} {v : View} {p : Pool} (hp : p.Coherent)
    (hmanaged : n.isUnmanaged = false) (hper : r.network.perNode = true)
    (h : View.Tracked r stripped ⟨p.heldBy n.key, some n⟩)
    (hout : r.Outcome n ⟨.cluster, r.network.families, r.declaredSubnets n⟩ p n accepting (.error e) v) :
    v.Tracked r stripped := by
  rcases h.assigned n rfl with hundeclared | ⟨-, -, hserves, hdeclaredId⟩
  · have hnot := h.not_stripped rfl hundeclared
    cases hout with
    | starved => exact tracked_of_undeclared hundeclared hnot
    | unwritten => exact tracked_of_undeclared hundeclared hnot
  · obtain ⟨rfl, u, hu, hnot⟩ := exists_not_retained (demand?_managed hmanaged hper) hserves hdeclaredId hout
    have hmissing : u ∉ p.remains n.key r.network.families (r.declaredSubnets n) := by
      rintro (⟨-, hother⟩ | hretains)
      · exact hother hu
      · exact hnot hretains
    have hbefore : stripped := by
      by_contra hs
      have hheld : u ∈ p.heldBy n.key := h.covered hs n rfl u hu
      have husable := Pool.usable_of_owner? ((hp.mem_heldBy_iff n.key u).1 hheld)
      exact hnot (retains_of_usable hserves.1 hu husable)
    refine ⟨fun c hc => ?_, fun hs => absurd hbefore hs, fun _ => ⟨n, rfl, u, hu, hmissing⟩⟩
    obtain rfl := Option.some.inj hc
    exact h.assigned n rfl

section Update

variable (hops : ops.Faithful records) (hw : w.Sound records) (hn : (records w.store).find? n.key = some n)
include hops hw hn

theorem declaredSubnets_of_other (h : n.isUnmanaged = true ∨ r.network.perNode = false) :
    ∃ m, (records ((r.addOrUpdate n).runAlone ops w).2.store).find? n.key = some m ∧
      r.declaredSubnets m = r.declaredSubnets n := by
  cases hd : r.demand? n with
  | none =>
    rcases record_of_undemanded hops hw hn hd with ⟨hrecord, -⟩ | ⟨m, hrecord, hm⟩
    · exact ⟨n, hrecord, rfl⟩
    · exact ⟨m, hrecord, declaredSubnets_declare_none hm⟩
  | some d =>
    rcases demand?_cases hd with ⟨hmanaged, hper, -⟩ | ⟨-, -, rfl⟩
    · rw [hmanaged, hper] at h
      rcases h with h | h <;> cases h
    · have hout := addOrUpdate_outcome hops hw hd hn
      generalize (r.addOrUpdate n).runAlone ops w = run at hout
      obtain ⟨result, w'⟩ := run
      dsimp only at hout ⊢
      generalize hv : w'.view records .overlay n.key = v at hout
      cases hout with
      | starved => exact ⟨n, congrArg View.record hv, rfl⟩
      | unwritten => exact ⟨n, congrArg View.record hv, rfl⟩
      | confirmed => exact ⟨n, congrArg View.record hv, rfl⟩
      | @written a m _ _ _ hm => exact ⟨m, congrArg View.record hv, declaredSubnets_entry_overlay hm⟩

/-- **A run for the current record strips nobody, and one that succeeds gives back what was stripped.** -/
theorem tracked_addOrUpdate (hid : Network.IsId r.network.id) (hproblem : r.network.problem? = none) {stripped : Prop}
    (h : (w.view records .cluster n.key).Tracked r stripped) :
    (((r.addOrUpdate n).runAlone ops w).2.view records .cluster n.key).Tracked r
      (stripped ∧ ¬ ((r.addOrUpdate n).runAlone ops w).1 = .ok ()) := by
  by_cases hcluster : n.isUnmanaged = false ∧ r.network.perNode = true
  · obtain ⟨hmanaged, hper⟩ := hcluster
    have hout := addOrUpdate_outcome hops hw (demand?_managed hmanaged hper) hn
    generalize hrun : (r.addOrUpdate n).runAlone ops w = run at hout
    obtain ⟨result, w'⟩ := run
    dsimp only at hout ⊢
    cases result with
    | ok _ =>
      obtain ⟨m, hm, hrewritten, hsupplied⟩ := supplied_of_ok hops hid hproblem hw hn hrun
      refine tracked_of_supplied hm ?_ (hrewritten.isUnmanaged.trans hmanaged) hper hsupplied fun hs => hs.2 rfl
      rw [hrewritten.key]
      rfl
    | error e =>
      have hstart : w.view records .cluster n.key = ⟨w.cluster.heldBy n.key, some n⟩ := View.ext rfl hn
      rw [hstart] at h
      exact (tracked_of_error (hw.pools .cluster) hmanaged hper h hout).congr (by simp)
  · have hother : n.isUnmanaged = true ∨ r.network.perNode = false := by
      rcases not_and_or.1 hcluster with h | h
      · exact Or.inl (by simpa using h)
      · exact Or.inr (by simpa using h)
    have hundeclared : r.declaredSubnets n = [] := by
      rcases h.assigned n hn with hnone | ⟨hmanaged, hper, -⟩
      · exact hnone
      · exact absurd ⟨hmanaged, hper⟩ hcluster
    obtain ⟨m, hm, hsame⟩ := declaredSubnets_of_other hops hw hn hother
    have hview : ((r.addOrUpdate n).runAlone ops w).2.view records .cluster n.key =
        ⟨((r.addOrUpdate n).runAlone ops w).2.cluster.heldBy n.key, some m⟩ := View.ext rfl hm
    rw [hview]
    exact tracked_of_undeclared (hsame.trans hundeclared) fun hs => h.not_stripped hn hundeclared hs.1

end Update

/-! ## A late report -/

/-- **A report strips whoever has the name**, if anything is declared. -/
theorem tracked_delete (hw : w.Sound records) {x : String} {stripped : Prop}
    (h : (w.view records .cluster x).Tracked r stripped) :
    (((r.delete x).runAlone ops w).2.view records .cluster x).Tracked r
      (stripped ∨ ∃ n, (records w.store).find? x = some n ∧ r.declaredSubnets n ≠ []) := by
  have hview : ((r.delete x).runAlone ops w).2.view records .cluster x =
      ⟨((r.delete x).runAlone ops w).2.cluster.heldBy x, (records w.store).find? x⟩ :=
    View.ext rfl (by rw [World.view, (delete_runAlone r ops x w).2])
  rw [hview]
  cases hn : (records w.store).find? x with
  | none =>
    refine tracked_of_absent fun hstripped => ?_
    rcases hstripped with hstripped | ⟨m, hm, -⟩
    · obtain ⟨m, hm, -⟩ := h.bared hstripped
      cases hn.symm.trans hm
    · cases hm
  | some n =>
    by_cases hundeclared : r.declaredSubnets n = []
    · refine tracked_of_undeclared hundeclared fun hstripped => ?_
      rcases hstripped with hstripped | ⟨m, hm, hdeclared⟩
      · exact h.not_stripped hn hundeclared hstripped
      · exact hdeclared (Option.some.inj hm ▸ hundeclared)
    · obtain ⟨-, hper, -⟩ := (h.assigned n hn).resolve_left hundeclared
      have hnone : (((r.delete x).runAlone ops w).2.pool .cluster).heldBy x = ∅ := heldBy_delete hw.pools hper
      obtain ⟨u, hu⟩ := List.exists_mem_of_ne_nil _ hundeclared
      refine ⟨fun m hm => ?_, fun hkept => absurd (Or.inr ⟨n, rfl, hundeclared⟩) hkept, fun _ => ⟨n, rfl, u, hu, ?_⟩⟩
      · obtain rfl := Option.some.inj hm
        exact h.assigned n hn
      · intro hheld
        have hin : u ∈ (((r.delete x).runAlone ops w).2.pool .cluster).heldBy x := hheld
        rw [hnone] at hin
        exact hin

/-! ## Any events -/

namespace Lifetimes

/-- What is known of every name. -/
structure Tracked (r : Reconciler) (records : σ → Records) (t : Lifetimes σ) : Prop where
  sound : t.world.Sound records
  views : ∀ name, (t.world.view records .cluster name).Tracked r (name ∈ t.stripped)

theorem tracked_start {s : σ} (hkeyed : (records s).Keyed)
    (hundeclared : ∀ n ∈ (records s).values, r.declaredSubnets n = []) :
    (start r ops s).Tracked r records := by
  have hfresh := fresh_runAlone_start ops r s
  refine ⟨⟨hfresh.pools, by rw [start, hfresh.store]; exact hkeyed⟩, fun name => ?_⟩
  have hview : (start r ops s).world.view records .cluster name =
      ⟨(start r ops s).world.cluster.heldBy name, (records s).find? name⟩ :=
    View.ext rfl (by rw [start, World.view, hfresh.store])
  rw [hview]
  cases hn : (records s).find? name with
  | none => exact tracked_of_absent fun h => h
  | some n => exact tracked_of_undeclared (hundeclared n (SortedMap.mem_values.2 ⟨name, hn⟩)) fun h => h

theorem Step.tracked (hops : ops.Faithful records) (hid : Network.IsId r.network.id)
    (hproblem : r.network.problem? = none) {t t' : Lifetimes σ} (h : Step r ops records t t')
    (ht : t.Tracked r records) : t'.Tracked r records := by
  obtain ⟨hsound, hviews⟩ := ht
  cases h with
  | @faults s hs =>
    refine ⟨hsound.withStore (by rw [hs]; exact hsound.keyed), fun name => ?_⟩
    rw [World.view_withStore_of_find? (by rw [hs])]
    exact hviews name
  | @appear s n hnew hundeclared hs =>
    refine ⟨hsound.withStore (by rw [hs]; exact hsound.keyed.insert rfl), fun name => ?_⟩
    by_cases hname : name = n.key
    · subst hname
      rw [World.view_withStore, hs, SortedMap.find?_insert, if_pos rfl]
      refine tracked_of_undeclared hundeclared fun hstripped => ?_
      obtain ⟨m, hm, -⟩ := (hviews n.key).bared hstripped
      cases hnew.symm.trans hm
    · rw [World.view_withStore_of_find? (by rw [hs, SortedMap.find?_insert, if_neg hname])]
      exact hviews name
  | @remove s x hs hpresent =>
    refine ⟨hsound.withStore (by rw [hs]; exact hsound.keyed.erase x), fun name => ?_⟩
    by_cases hname : name = x
    · subst hname
      rw [World.view_withStore, hs, SortedMap.find?_erase, if_pos rfl]
      exact tracked_of_absent fun hstripped => hstripped.2 rfl
    · rw [World.view_withStore_of_find? (by rw [hs, SortedMap.find?_erase, if_neg hname])]
      exact (hviews name).congr ⟨fun h => h.1, fun h => ⟨h, hname⟩⟩
  | @delete x howed =>
    refine ⟨Sound.runAlone hops hsound _, fun name => ?_⟩
    by_cases hname : x = name
    · subst hname
      refine (tracked_delete hsound (hviews x)).congr (or_congr_right ⟨fun h => h.2, fun h => ⟨rfl, h⟩⟩)
    · have hother : ¬ name = x := fun heq => hname heq.symm
      rw [view_runAlone hops hsound (delete_only r x) .cluster hname]
      exact (hviews name).congr ⟨fun h => h.resolve_right fun h => hother h.1, Or.inl⟩
  | @update n hn =>
    refine ⟨Sound.runAlone hops hsound _, fun name => ?_⟩
    by_cases hname : n.key = name
    · subst hname
      refine (tracked_addOrUpdate hops hsound hn hid hproblem (hviews n.key)).congr
        (and_congr_right fun _ => ?_)
      exact not_congr ⟨fun h => h.2, fun h => ⟨rfl, h⟩⟩
    · have hother : ¬ name = n.key := fun heq => hname heq.symm
      rw [view_runAlone hops hsound (addOrUpdate_only r n) .cluster hname]
      exact (hviews name).congr ⟨fun h => h.1, fun h => ⟨h, fun h => hother h.1⟩⟩

end Lifetimes

/-- **What a node declares is reserved for it unless a late report stripped it.** Nodes that declare nothing come up,
also under names used before, are handled from their current records and are removed; each removal is reported once
and whenever. The stored record of a node declares only subnets that are reserved for the node, at any time between
these events, exactly if no report of an earlier removal was handled for its name while it declared any, or a run for
the node has succeeded after that. -/
theorem declared_held_iff_not_stripped (hops : ops.Faithful records) (hid : Network.IsId r.network.id) {s : σ}
    (hstart : (r.start.runAlone ops (World.start s)).1 = .ok ()) (hkeyed : (records s).Keyed)
    (hundeclared : ∀ n ∈ (records s).values, r.declaredSubnets n = []) {t : Lifetimes σ}
    (hrun : Relation.ReflTransGen (Lifetimes.Step r ops records) (.start r ops s) t)
    (hn : (records t.world.store).find? n.key = some n) :
    (∀ u ∈ r.declaredSubnets n, u ∈ t.world.cluster.allocated n.key) ↔ n.key ∉ t.stripped := by
  have htracked : t.Tracked r records := by
    clear hn
    induction hrun with
    | refl => exact Lifetimes.tracked_start hkeyed hundeclared
    | tail _ hstep ih => exact hstep.tracked hops hid (problem?_of_start hstart) ih
  have hname := htracked.views n.key
  refine ⟨fun hheld hstripped => ?_, fun hnot => hname.covered hnot n hn⟩
  obtain ⟨m, hm, u, hu, hmissing⟩ := hname.bared hstripped
  obtain rfl := Option.some.inj (hn.symm.trans hm)
  exact hmissing (hheld u hu)

/-! ## A name used twice -/

/-- One node that declares nothing. -/
def singleRecords : Records := Records.put (.named "a") .empty

def replaced : World Records :=
  { (Lifetimes.start sample Records.ops singleRecords).world with
    store := (singleRecords.erase "a").insert "a" (.named "a") }

def replacedServed : World Records := ((sample.addOrUpdate (.named "a")).runAlone Records.ops replaced).2

def replacedStripped : World Records := ((sample.delete "a").runAlone Records.ops replacedServed).2

def thirdServed : World Records :=
  ((sample.addOrUpdate (.named "b")).runAlone Records.ops
    { replacedStripped with store := replacedStripped.store.insert "b" (.named "b") }).2

theorem run_replaced {w : World Records} (hstore : w.store = singleRecords) :
    ∃ stripped, "a" ∉ stripped ∧ Relation.ReflTransGen (Lifetimes.Step sample Records.ops id) ⟨w, [], ∅⟩
      ⟨((sample.addOrUpdate (.named "a")).runAlone Records.ops
        { w with store := (singleRecords.erase "a").insert "a" (.named "a") }).2, ["a"], stripped⟩ := by
  have hpresent : (singleRecords.find? "a").isSome = true := by decide +kernel
  have hnone : (singleRecords.erase "a").find? "a" = none := by decide +kernel
  have hundeclared : sample.declaredSubnets (.named "a") = [] := by decide +kernel
  have hfound : ((singleRecords.erase "a").insert "a" (.named "a")).find? "a" = some (.named "a") := by decide +kernel
  rw [← hstore] at hpresent
  have hremoved : Lifetimes.Step sample Records.ops id ⟨w, [], ∅⟩ ⟨{ w with store := singleRecords.erase "a" }, ["a"],
      {x | x ∈ (∅ : Set String) ∧ x ≠ "a"}⟩ := .remove (by rw [← hstore]; rfl) hpresent
  have happeared : Lifetimes.Step sample Records.ops id
      ⟨{ w with store := singleRecords.erase "a" }, ["a"], {x | x ∈ (∅ : Set String) ∧ x ≠ "a"}⟩
      ⟨{ w with store := (singleRecords.erase "a").insert "a" (.named "a") }, ["a"],
        {x | x ∈ (∅ : Set String) ∧ x ≠ "a"}⟩ := .appear (n := .named "a") hnone hundeclared rfl
  have hhandled : Lifetimes.Step sample Records.ops id _ _ := .update (n := .named "a")
    (t := ⟨{ w with store := (singleRecords.erase "a").insert "a" (.named "a") }, ["a"],
      {x | x ∈ (∅ : Set String) ∧ x ≠ "a"}⟩) hfound
  exact ⟨_, fun h => h.1.1, .tail (.tail (.single hremoved) happeared) hhandled⟩

theorem replaced_run : ∃ stripped, "a" ∉ stripped ∧
    Relation.ReflTransGen (Lifetimes.Step sample Records.ops id) (.start sample Records.ops singleRecords)
      ⟨replacedServed, ["a"], stripped⟩ :=
  run_replaced (fresh_runAlone_start Records.ops sample singleRecords).store

theorem run_third (stripped : Set String) : ∃ stripped', Relation.ReflTransGen
    (Lifetimes.Step sample Records.ops id) ⟨replacedStripped, [], stripped⟩ ⟨thirdServed, [], stripped'⟩ := by
  have hnone : replacedStripped.store.find? "b" = none := by decide +kernel
  have hundeclared : sample.declaredSubnets (.named "b") = [] := by decide +kernel
  have hfound : (replacedStripped.store.insert "b" (.named "b")).find? "b" = some (.named "b") := by
    rw [SortedMap.find?_insert, if_pos rfl]
  have happeared : Lifetimes.Step sample Records.ops id ⟨replacedStripped, [], stripped⟩
      ⟨{ replacedStripped with store := replacedStripped.store.insert "b" (.named "b") }, [], stripped⟩ :=
    .appear (n := .named "b") hnone hundeclared rfl
  have hhandled : Lifetimes.Step sample Records.ops id _ _ := .update (n := .named "b")
    (t := ⟨{ replacedStripped with store := replacedStripped.store.insert "b" (.named "b") }, [], stripped⟩) hfound
  exact ⟨_, .tail (.single happeared) hhandled⟩

/-- No event fails, and the subnet that the new node declares is given to another one. -/
theorem late_report_strips :
    ((sample.addOrUpdate (.named "a")).runAlone Records.ops replaced).1 = .ok () ∧
      ((sample.addOrUpdate (.named "b")).runAlone Records.ops
        { replacedStripped with store := replacedStripped.store.insert "b" (.named "b") }).1 = .ok () ∧
      (∃ t, Relation.ReflTransGen (Lifetimes.Step sample Records.ops id)
        (.start sample Records.ops singleRecords) t ∧ t.world = thirdServed) ∧
      (thirdServed.store.find? "a").map sample.declaredSubnets = some [lowerSubnet] ∧
      thirdServed.cluster.allocated "a" = [] ∧
      (thirdServed.store.find? "b").map sample.declaredSubnets = some [lowerSubnet] ∧
      thirdServed.cluster.allocated "b" = [lowerSubnet] := by
  refine ⟨by decide +kernel, by decide +kernel, ?_, by decide +kernel, by decide +kernel, by decide +kernel,
    by decide +kernel⟩
  obtain ⟨stripped, -, hrun⟩ := replaced_run
  have hdeleted : Lifetimes.Step sample Records.ops id _ _ :=
    .delete (t := ⟨replacedServed, ["a"], stripped⟩) List.mem_cons_self
  obtain ⟨stripped', hthird⟩ := run_third _
  exact ⟨_, (hrun.tail hdeleted).trans hthird, rfl⟩

theorem replaced_holds : ∃ n, replacedServed.store.find? "a" = some n ∧ sample.declaredSubnets n = [lowerSubnet] ∧
    ∀ u ∈ sample.declaredSubnets n, u ∈ replacedServed.cluster.allocated "a" := by
  have hdeclared : (replacedServed.store.find? "a").map (fun n => (n.key, sample.declaredSubnets n)) =
      some ("a", [lowerSubnet]) := by decide +kernel
  obtain ⟨n, hn, hshown⟩ := Option.map_eq_some_iff.1 hdeclared
  obtain ⟨hkey, hlower⟩ := Prod.mk.inj hshown
  obtain ⟨stripped, hnot, hrun⟩ := replaced_run
  have hstart : (sample.start.runAlone Records.ops (World.start singleRecords)).1 = .ok () := by decide +kernel
  have hheld := (declared_held_iff_not_stripped Records.faithful (by decide) hstart
    (Records.keyed_empty.put (.named "a")) (by decide +kernel) hrun (n := n) (by rw [hkey]; exact hn)).2
    (by rw [hkey]; exact hnot)
  rw [hkey] at hheld
  exact ⟨n, hn, hlower, hheld⟩

end HostSubnets.Reconciler
