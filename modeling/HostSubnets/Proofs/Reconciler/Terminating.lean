import HostSubnets.Proofs.Reconciler.Restart

/-!
# Terminating nodes and restarts

A terminating node is released while its record still declares what it had, so another node may be given the same and
declare it too. As long as the reconciler runs, that one keeps it (`Turn.keeps`). A restart makes the pools from the
records, and reserves a subnet for the first node in the list that declares it, terminating or not: if that is not the
node which has it, the next run moves this node to another subnet (`renumbered_of_taken`). `kept_iff_leads` says that
nothing else does.
-/

namespace HostSubnets.Reconciler

open HostSubnets.Task

variable {σ : Type} {ops : StoreOps σ} {records : σ → Records} {r : Reconciler} {n m : Node} {d : Demand}
  {w w' w₀ : World σ} {name : String} {order : List Node} {t : Cidr}

/-! ## Runs for one node -/

def dueAgain : Except ControlError Unit → Except ControlError (Option Duration)
  | .error e => .error e
  | .ok _ => .ok (some successDelay)

theorem reconcile_live (h : n.terminating = false) :
    r.reconcile n = r.addOrUpdate n >>= fun result => pure (dueAgain result) := by
  unfold reconcile
  rw [h, if_neg Bool.false_ne_true]
  congr 1
  funext result
  cases result <;> rfl

theorem reconcile_live_runAlone (h : n.terminating = false) (w : World σ) :
    (r.reconcile n).runAlone ops w =
      (dueAgain ((r.addOrUpdate n).runAlone ops w).1, ((r.addOrUpdate n).runAlone ops w).2) := by
  rw [reconcile_live h, runAlone_bind]
  rfl

/-! ## Who holds what after a restart -/

/-- No node before it in a list declares a subnet that it declares. -/
def Leads (r : Reconciler) (order : List Node) (n : Node) : Prop :=
  ∀ d, r.demand? n = some d → ∀ t ∈ d.existing, (order.find? fun m => t ∈ r.seedsIn m d.pool).map Node.key = some n.key

theorem owner?_launch (ops : StoreOps σ) (hper : r.network.perNode = true) (order : List Node) (s : σ)
    (which : PoolName) (t : Cidr) :
    ((r.launch ops order s).pool which).owner? t =
      if ((r.start.runAlone ops (World.start s)).2.pool which).Hosts t then
        (order.find? fun m => t ∈ r.seedsIn m which).map Node.key
      else none :=
  (fresh_runAlone_start ops r s).owner?_sync r hper order which t

theorem held_of_leads {s : σ} (hd : r.demand? n = some d) (hleads : r.Leads order n) (ht : t ∈ d.existing)
    (hhosts : ((r.start.runAlone ops (World.start s)).2.pool d.pool).Hosts t) :
    t ∈ ((r.launch ops order s).pool d.pool).allocated n.key := by
  have hper := (uses_of_demand? hd).2
  have hcoherent : ((r.launch ops order s).pool d.pool).Coherent :=
    (fresh_runAlone_start ops r s).coherent_sync r hper order d.pool
  apply (hcoherent.mirrored n.key t).2
  rw [owner?_launch ops hper, if_pos hhosts]
  exact hleads d hd t ht

/-- One that does not finds a subnet that it declares held by another node, if there is such a subnet at all. -/
theorem taken_of_not_leads (hops : ops.Faithful records) {s : σ} (hkeyed : (records s).Keyed)
    (hd : r.demand? n = some d) (hn : n ∈ order) (hleads : ¬ r.Leads order n) :
    ∃ t ∈ d.existing, ¬ ((r.launch ops order s).pool d.pool).Usable n.key t := by
  have hper := (uses_of_demand? hd).2
  unfold Leads at hleads
  push Not at hleads
  obtain ⟨d', hd', t, ht, hfirst⟩ := hleads
  obtain rfl := Option.some.inj (hd.symm.trans hd')
  refine ⟨t, ht, fun husable => ?_⟩
  obtain ⟨hhosts, howner⟩ := husable
  rw [owner?_launch ops hper, if_pos (((registers_launch hops hkeyed order).hosts d.pool t).1 hhosts)] at howner
  cases howner with
  | inl hnone =>
    -- the node itself declares it
    rw [Option.map_eq_none_iff, List.find?_eq_none] at hnone
    have hseeds : t ∈ r.seedsIn n d.pool := (mem_seedsIn hper).2 ⟨d, hd, rfl, ht⟩
    exact hnone n hn (by simpa using hseeds)
  | inr hown => exact hfirst hown

/-! ## The node that keeps its subnets -/

/-- A live node has the subnets that its record declares. -/
structure World.Keeps (r : Reconciler) (records : σ → Records) (name : String) (d : Demand) (w w₀ : World σ) : Prop where
  registers : w.Registers records w₀
  node : ∃ n, (records w.store).find? name = some n ∧ n.terminating = false ∧ r.demand? n = some d ∧ r.Supplied n w

/-- One turn of the reconciler, or a change of the records. Nodes of `kept` stay live and are not changed by others, and
lead the list at a restart. -/
inductive Turn (r : Reconciler) (ops : StoreOps σ) (records : σ → Records) (kept : Set String) (w : World σ) :
    World σ → Prop where
  | faults {s : σ} (hs : records s = records w.store) : Turn r ops records kept w { w with store := s }
  | appear {s : σ} {n : Node} (hnew : (records w.store).find? n.key = none)
      (hs : records s = (records w.store).insert n.key n) : Turn r ops records kept w { w with store := s }
  /-- A record changes, so that a node is terminating for example. -/
  | edit {s : σ} {n m : Node} (hn : (records w.store).find? n.key = some n) (hkey : m.key = n.key)
      (hkept : n.key ∈ kept → m.terminating = n.terminating ∧ r.Alike n m)
      (hs : records s = (records w.store).insert n.key m) : Turn r ops records kept w { w with store := s }
  | vanish {s : σ} {name : String} (hkept : name ∉ kept) (hs : records s = (records w.store).erase name) :
      Turn r ops records kept w { w with store := s }
  | forget {name : String} (hgone : (records w.store).find? name = none) :
      Turn r ops records kept w ((r.delete name).runAlone ops w).2
  | reconcile {n : Node} (hn : (records w.store).find? n.key = some n) :
      Turn r ops records kept w ((r.reconcile n).runAlone ops w).2
  | restart {order : List Node} (horder : order.Perm (records w.store).values)
      (hleads : ∀ n ∈ order, n.key ∈ kept → r.Leads order n) :
      Turn r ops records kept w (r.launch ops order w.store)

theorem World.Keeps.of_view (h : w.Keeps r records name d w₀) (hregisters : w'.Registers records w₀)
    (hview : ∀ which, w'.view records which name = w.view records which name) : w'.Keeps r records name d w₀ := by
  obtain ⟨n, hn, hlive, hd, hsupplied⟩ := h.node
  refine ⟨hregisters, n, (congrArg View.record (hview .cluster)).trans hn, hlive, hd, hsupplied.congr ?_⟩
  intro which
  rw [h.registers.sound.keyed name n hn]
  exact (congrArg View.held (hview which)).symm.subset

/-- The node's own record is replaced by one that asks for the same and declares the same. -/
theorem World.Keeps.edit {s : σ} (h : w.Keeps r records name d w₀)
    (hregisters : ({ w with store := s } : World σ).Registers records w₀)
    (hn : (records w.store).find? name = some n) (hterminating : m.terminating = n.terminating) (halike : r.Alike n m)
    (hm : (records s).find? name = some m) : ({ w with store := s } : World σ).Keeps r records name d w₀ := by
  obtain ⟨c, hc, hlive, hd, hsupplied⟩ := h.node
  obtain rfl := Option.some.inj (hn.symm.trans hc)
  refine ⟨hregisters, m, hm, hterminating.trans hlive, halike.demand.trans hd, (hsupplied.alike halike).congr ?_⟩
  intro which
  exact (congrArg (Pool.heldBy m.key) (World.pool_withStore which w s)).symm.subset

section Turns

variable {s : σ} {kept : Set String} (hops : ops.Faithful records)
include hops

theorem Turn.registers (hturn : Turn r ops records kept w w')
    (h : w.Registers records (r.start.runAlone ops (World.start s)).2) :
    w'.Registers records (r.start.runAlone ops (World.start s)).2 := by
  have hkeyed := h.sound.keyed
  cases hturn with
  | faults hs =>
    apply h.withStore
    rw [hs]
    exact hkeyed
  | appear hnew hs =>
    apply h.withStore
    rw [hs]
    exact hkeyed.insert rfl
  | edit hn hkey _ hs =>
    apply h.withStore
    rw [hs]
    exact hkeyed.insert hkey
  | vanish _ hs =>
    apply h.withStore
    rw [hs]
    exact hkeyed.erase _
  | forget _ => exact h.runAlone hops (delete_only r _)
  | reconcile _ => exact h.runAlone hops (reconcile_only r _)
  | restart _ _ => exact registers_launch hops hkeyed _

theorem World.Keeps.reconcile (hproblem : r.network.problem? = none) (h : w.Keeps r records name d w₀)
    (hn : (records w.store).find? n.key = some n) :
    ((r.reconcile n).runAlone ops w).2.Keeps r records name d w₀ := by
  have hsound := h.registers.sound
  obtain ⟨c, hc, hlive, -, hsupplied⟩ := h.node
  apply h.of_view (h.registers.runAlone hops (reconcile_only r n))
  intro which
  by_cases hsame : n.key = name
  · rw [hsame, hc] at hn
    obtain rfl := Option.some.inj hn
    have hidles : (r.addOrUpdate c).Idles ops (.ok ()) w := hsupplied.idles hsound.pools hproblem
    rw [reconcile_live_runAlone hlive]
    unfold World.view
    rw [hidles.pools, hidles.store]
  · exact view_runAlone hops hsound (reconcile_only r n) which hsame

/-- A restart reserves for the node what its record declares, if it leads the list. -/
theorem World.Keeps.restart (h : w.Keeps r records name d (r.start.runAlone ops (World.start s)).2)
    (horder : order.Perm (records w.store).values) (hleads : ∀ n ∈ order, n.key = name → r.Leads order n) :
    (r.launch ops order w.store).Keeps r records name d (r.start.runAlone ops (World.start s)).2 := by
  have hkeyed := h.registers.sound.keyed
  obtain ⟨c, hc, hlive, hd, hsupplied⟩ := h.node
  obtain rfl := hkeyed name c hc
  have hmem : c ∈ order := horder.mem_iff.2 (hkeyed.mem_values_iff.2 hc)
  have hfind : (records (r.launch ops order w.store).store).find? c.key = some c := by
    rw [store_launch]
    exact hc
  have hheld : ∀ t ∈ d.existing, t ∈ ((r.launch ops order w.store).pool d.pool).allocated c.key := by
    intro t ht
    apply held_of_leads hd (hleads c hmem rfl) ht
    rw [(start_agrees r ops ops w.store s).2 d.pool]
    exact h.registers.hosts_of_held (hsupplied.held d hd t ht)
  exact ⟨registers_launch hops hkeyed _, c, hfind, hlive, hd,
    supplied_of_demand hsupplied.id hd (hsupplied.serves d hd) hheld⟩

/-- **A live node keeps its subnets in every turn** that leaves it the lead. -/
theorem Turn.keeps (hproblem : r.network.problem? = none) (hname : name ∈ kept) (hturn : Turn r ops records kept w w')
    (h : w.Keeps r records name d (r.start.runAlone ops (World.start s)).2) :
    w'.Keeps r records name d (r.start.runAlone ops (World.start s)).2 := by
  have hregisters := hturn.registers hops h.registers
  have hsound := h.registers.sound
  obtain ⟨c, hc, -⟩ := h.node
  obtain rfl := hsound.keyed name c hc
  cases hturn with
  | faults hs =>
    apply h.of_view hregisters
    apply World.view_withStore_of_find?
    rw [hs]
  | @appear s n hnew hs =>
    apply h.of_view hregisters
    apply World.view_withStore_of_find?
    have hne : c.key ≠ n.key := by
      intro hsame
      rw [← hsame, hc] at hnew
      cases hnew
    rw [hs, SortedMap.find?_insert, if_neg hne]
  | @edit s n m hn hkey hkept hs =>
    by_cases hsame : n.key = c.key
    · rw [hsame] at hn hs hkept
      obtain ⟨hterminating, halike⟩ := hkept hname
      refine h.edit hregisters hn hterminating halike ?_
      rw [hs, SortedMap.find?_insert, if_pos rfl]
    · apply h.of_view hregisters
      apply World.view_withStore_of_find?
      rw [hs, SortedMap.find?_insert, if_neg (Ne.symm hsame)]
  | @vanish s x hkept hs =>
    apply h.of_view hregisters
    apply World.view_withStore_of_find?
    have hne : c.key ≠ x := by
      intro hsame
      exact hkept (hsame ▸ hname)
    rw [hs, SortedMap.find?_erase, if_neg hne]
  | @forget x hgone =>
    apply h.of_view hregisters
    intro which
    apply view_runAlone hops hsound (delete_only r x)
    intro hsame
    rw [hsame, hc] at hgone
    cases hgone
  | reconcile hn => exact h.reconcile hops hproblem hn
  | restart horder hleads =>
    exact h.restart hops horder fun n hn hsame => hleads n hn (hsame ▸ hname)

theorem registers_run (hrun : Relation.ReflTransGen (Turn r ops records kept) w w')
    (h : w.Registers records (r.start.runAlone ops (World.start s)).2) :
    w'.Registers records (r.start.runAlone ops (World.start s)).2 := by
  induction hrun with
  | refl => exact h
  | tail _ hturn ih => exact hturn.registers hops ih

theorem keeps_run (hproblem : r.network.problem? = none) (hname : name ∈ kept)
    (hrun : Relation.ReflTransGen (Turn r ops records kept) w w')
    (h : w.Keeps r records name d (r.start.runAlone ops (World.start s)).2) :
    w'.Keeps r records name d (r.start.runAlone ops (World.start s)).2 := by
  induction hrun with
  | refl => exact h
  | tail _ hturn ih => exact hturn.keeps hops hproblem hname ih

end Turns

/-- **A node whose declared subnet is held by another is given another one**, if there is any. -/
theorem renumbered_of_taken (hops : ops.Faithful records) (haccept : ops.Accepting records) (hw : w.Sound records)
    (hn : (records w.store).find? n.key = some n) (hlive : n.terminating = false) (hd : r.demand? n = some d)
    (hroom : ¬ (w.pool d.pool).Starved n.key d.families d.existing) (ht : t ∈ d.existing)
    (htaken : ¬ (w.pool d.pool).Usable n.key t) :
    ∃ m, (records ((r.reconcile n).runAlone ops w).2.store).find? n.key = some m ∧ r.demand? m ≠ some d := by
  have hout := addOrUpdate_outcome hops hw hd hn
  rw [reconcile_live_runAlone hlive]
  generalize hv : ((r.addOrUpdate n).runAlone ops w).2.view records d.pool n.key = v at hout
  generalize ((r.addOrUpdate n).runAlone ops w).1 = result at hout
  cases hout with
  | starved hstarved => exact absurd hstarved hroom
  | unwritten _ _ _ hrefused => exact absurd haccept hrefused
  | confirmed _ ha hsame =>
    have hcomplete := (confirms_iff hd ha.toFits).1 hsame
    have hretains := hcomplete.2.2.1 t ht
    exact absurd hretains.usable htaken
  | @written a m _ ha _ hm =>
    refine ⟨m, congrArg View.record hv, ?_⟩
    rw [demand?_written hd ha.serves hm]
    intro hsame
    have hsubnets : a.subnets = d.existing := congrArg Demand.existing (Option.some.inj hsame)
    rw [← hsubnets] at ht
    cases (ha.mem_subnets t).1 ht with
    | inl hretains => exact htaken hretains.usable
    | inr hnew => exact htaken (ha.untaken t hnew).2

/-! ## Whole runs -/

theorem keeps_of_reconcile (hops : ops.Faithful records) (hid : Network.IsId r.network.id)
    (hproblem : r.network.problem? = none) (hw : w.Registers records w₀)
    (hn : (records w.store).find? n.key = some n) (hlive : n.terminating = false)
    (hserved : (r.demand? n).isSome = true) {delay : Option Duration}
    (hrun : (r.reconcile n).runAlone ops w = (.ok delay, w')) : ∃ d, w'.Keeps r records n.key d w₀ := by
  rw [reconcile_live_runAlone hlive] at hrun
  obtain ⟨hresult, rfl⟩ := Prod.ext_iff.1 hrun
  have hok : (r.addOrUpdate n).runAlone ops w = (.ok (), ((r.addOrUpdate n).runAlone ops w).2) := by
    refine Prod.ext ?_ rfl
    generalize ((r.addOrUpdate n).runAlone ops w).1 = result at hresult
    cases result with
    | error e => cases hresult
    | ok _ => rfl
  obtain ⟨c, hc, hrewritten, hsupplied⟩ := supplied_of_ok hops hid hproblem hw.sound hn hok
  obtain ⟨d, hd⟩ := Option.isSome_iff_exists.1 (hrewritten.isSome_demand?.trans hserved)
  refine ⟨d, hw.runAlone hops (addOrUpdate_only r n), c, hc, ?_, hd, hsupplied⟩
  obtain ⟨version, annotations, rfl⟩ := hrewritten
  exact hlive

/-- **What a restart may cost a live node.** The reconciler was started, and in any turns came to a run for a live node
that succeeded, so that its record declares one subnet of each family. The node declares these as long as it leads the
list of every restart that follows, and for no other order of a restart: if the list has a node before it that declares
one of its subnets, then on a store that accepts writes, with a number left, the next run for the node changes what it
declares. -/
theorem kept_iff_leads (hops : ops.Faithful records) (hid : Network.IsId r.network.id) {s : σ}
    (hstart : (r.start.runAlone ops (World.start s)).1 = .ok ()) (hkeyed : (records s).Keyed) {nodes : List Node}
    (hbefore : Relation.ReflTransGen (Turn r ops records ∅) (r.launch ops nodes s) w)
    (hn : (records w.store).find? n.key = some n) (hlive : n.terminating = false)
    (hserved : (r.demand? n).isSome = true) {delay : Option Duration} {w₁ w₂ : World σ}
    (hrun : (r.reconcile n).runAlone ops w = (.ok delay, w₁))
    (hafter : Relation.ReflTransGen (Turn r ops records {n.key}) w₁ w₂) :
    ∃ d c, (records w₁.store).find? n.key = some c ∧ r.demand? c = some d ∧ d.families.Serves d.existing ∧
      ∃ m, (records w₂.store).find? n.key = some m ∧ m.terminating = false ∧ r.demand? m = some d ∧
        ∀ order : List Node, order.Perm (records w₂.store).values →
          (r.Leads order m → ∀ w₃,
            Relation.ReflTransGen (Turn r ops records {n.key}) (r.launch ops order w₂.store) w₃ →
              ∃ m', (records w₃.store).find? n.key = some m' ∧ r.demand? m' = some d) ∧
          (ops.Accepting records →
            ¬ ((r.launch ops order w₂.store).pool d.pool).Starved n.key d.families d.existing →
              ¬ r.Leads order m →
                ∃ m', (records ((r.reconcile m).runAlone ops (r.launch ops order w₂.store)).2.store).find? n.key =
                    some m' ∧ r.demand? m' ≠ some d) := by
  have hproblem := problem?_of_start hstart
  have hbegin : (r.launch ops nodes s).Registers records (r.start.runAlone ops (World.start s)).2 :=
    registers_launch hops hkeyed nodes
  have hregisters := registers_run hops hbefore hbegin
  obtain ⟨d, hkeeps⟩ := keeps_of_reconcile hops hid hproblem hregisters hn hlive hserved hrun
  have hname : n.key ∈ ({n.key} : Set String) := rfl
  have hkept := keeps_run hops hproblem hname hafter hkeeps
  obtain ⟨c, hc, -, hd, hsupplied⟩ := hkeeps.node
  obtain ⟨m, hm, hmlive, hmd, -⟩ := hkept.node
  have hkeyed' := hkept.registers.sound.keyed
  have hkey : m.key = n.key := hkeyed' n.key m hm
  refine ⟨d, c, hc, hd, hsupplied.serves d hd, m, hm, hmlive, hmd, fun order horder => ⟨fun hleads w₃ hrun₃ => ?_, ?_⟩⟩
  · have hturn : Turn r ops records {n.key} w₂ (r.launch ops order w₂.store) := by
      refine .restart horder fun x hx hxkey => ?_
      have hfind := hkeyed'.mem_values_iff.1 (horder.mem_iff.1 hx)
      rw [Set.mem_singleton_iff.1 hxkey, hm] at hfind
      obtain rfl := Option.some.inj hfind
      exact hleads
    have hend := keeps_run hops hproblem hname (.head hturn hrun₃) hkept
    obtain ⟨m', hm', -, hd', -⟩ := hend.node
    exact ⟨m', hm', hd'⟩
  · intro haccept hroom hleads
    have hmem : m ∈ order := horder.mem_iff.2 (SortedMap.mem_values.2 ⟨n.key, hm⟩)
    obtain ⟨t, ht, htaken⟩ := taken_of_not_leads hops hkeyed' hmd hmem hleads
    have hfind : (records (r.launch ops order w₂.store).store).find? m.key = some m := by
      rw [store_launch, hkey]
      exact hm
    rw [← hkey] at hroom ⊢
    exact renumbered_of_taken hops haccept (sound_launch hops hkeyed') hfind hmlive hmd hroom ht htaken

/-! ## A node that leaves and one that comes -/

/-- A terminating node that still declares a subnet. -/
def leavingNode : Node :=
  { Node.named "a" with
    annotations := some (TextMap.setSubnets Network.defaultName [lowerSubnet] .empty), terminating := true }

/-- Beside it a node that declares nothing. -/
def leavingStore : Records := Records.put leavingNode (Records.put (.named "b") .empty)

def leavingReleased : World Records :=
  ((sample.reconcile leavingNode).runAlone Records.ops (sample.launch Records.ops leavingStore.values leavingStore)).2

def comingServed : World Records := ((sample.reconcile (.named "b")).runAlone Records.ops leavingReleased).2

theorem reconcile_coming :
    (sample.reconcile (.named "b")).runAlone Records.ops leavingReleased = (.ok (some successDelay), comingServed) := by
  have hpair : ∀ run : Except ControlError (Option Duration) × World Records, run.1 = .ok (some successDelay) →
      run = (.ok (some successDelay), run.2) := fun run hok => Prod.ext hok rfl
  unfold comingServed
  exact hpair _ (by decide +kernel)

/-- A restart in the order of the names reserves it for the terminating node again, and the live one is moved. -/
theorem leaving_displaces_coming :
    ((sample.reconcile (.named "b")).runAlone Records.ops leavingReleased).1 = .ok (some successDelay) ∧
      comingServed.cluster.allocated "b" = [lowerSubnet] ∧
      (comingServed.store.find? "b").map (fun c => (c.terminating, sample.declaredSubnets c)) =
        some (false, [lowerSubnet]) ∧
      ∃ order : List Node, order.Perm comingServed.store.values ∧
        let w := sample.launch Records.ops order comingServed.store
        ((comingServed.store.find? "b").bind fun c =>
            ((sample.reconcile c).runAlone Records.ops w).2.store.find? "b").map
          (fun c => (c.terminating, sample.declaredSubnets c)) = some (false, [upperSubnet]) := by
  have hheld : comingServed.cluster.allocated "b" = [lowerSubnet] ∧
      (comingServed.store.find? "b").map (fun c => (c.terminating, sample.declaredSubnets c)) =
        some (false, [lowerSubnet]) := by decide +kernel
  exact ⟨congrArg Prod.fst reconcile_coming, hheld.1, hheld.2, comingServed.store.values, List.Perm.refl _,
    by decide +kernel⟩

/-- In the other order it keeps the subnet, whatever comes next. In that of the names its next run gives it another. -/
theorem coming_kept :
    comingServed.store.values.map Node.key = ["a", "b"] ∧
      (∀ w, Relation.ReflTransGen (Turn sample Records.ops id {"b"})
          (sample.launch Records.ops comingServed.store.values.reverse comingServed.store) w →
        ∃ m, w.store.find? "b" = some m ∧
          sample.demand? m = some ⟨.cluster, sample.network.families, [lowerSubnet]⟩) ∧
      ∃ c m, comingServed.store.find? "b" = some c ∧
        ((sample.reconcile c).runAlone Records.ops
          (sample.launch Records.ops comingServed.store.values comingServed.store)).2.store.find? "b" = some m ∧
        sample.demand? m ≠ some ⟨.cluster, sample.network.families, [lowerSubnet]⟩ := by
  have hnames : comingServed.store.values.map Node.key = ["a", "b"] := by decide +kernel
  have hstart : (sample.start.runAlone Records.ops (World.start leavingStore)).1 = .ok () := by decide +kernel
  have hkeyed : Records.Keyed leavingStore := (Records.keyed_empty.put (.named "b")).put leavingNode
  have hleaving : (sample.launch Records.ops leavingStore.values leavingStore).store.find? leavingNode.key =
      some leavingNode := by decide +kernel
  have hbefore : Turn sample Records.ops id ∅ (sample.launch Records.ops leavingStore.values leavingStore)
      leavingReleased := by
    unfold leavingReleased
    exact .reconcile hleaving
  have hn : leavingReleased.store.find? (Node.named "b").key = some (.named "b") := by decide +kernel
  have hrun := reconcile_coming
  have hdeclared : (comingServed.store.find? "b").map (fun c => (c.key, sample.demand? c)) =
      some ("b", some ⟨.cluster, sample.network.families, [lowerSubnet]⟩) := by decide +kernel
  have hfirst : (comingServed.store.values.reverse.find? fun m => lowerSubnet ∈ sample.seedsIn m .cluster).map Node.key =
      some "b" := by decide +kernel
  have hbehind : (comingServed.store.values.find? fun m => lowerSubnet ∈ sample.seedsIn m .cluster).map Node.key =
      some "a" := by decide +kernel
  have hroom : ¬ (sample.launch Records.ops comingServed.store.values comingServed.store).cluster.Starved "b"
      sample.network.families [lowerSubnet] := by decide +kernel
  -- nothing of these worlds is needed any more
  generalize leavingReleased = w at hbefore hn hrun
  generalize comingServed = w₁ at hrun hdeclared hfirst hbehind hroom hnames ⊢
  obtain ⟨d, c, hc, hd, -, m, hm, -, -, hkept⟩ := kept_iff_leads (n := .named "b") Records.faithful (by decide) hstart
    hkeyed (.single hbefore) hn rfl (by decide +kernel) hrun .refl
  obtain rfl := Option.some.inj (hc.symm.trans hm)
  obtain ⟨c', hc', hshown⟩ := Option.map_eq_some_iff.1 hdeclared
  obtain rfl := Option.some.inj (hc.symm.trans hc')
  obtain ⟨hkey, hdemand⟩ := Prod.mk.inj hshown
  obtain rfl := Option.some.inj (hd.symm.trans hdemand)
  have hleads : sample.Leads w₁.store.values.reverse c := by
    intro d' hd' t ht
    obtain rfl := Option.some.inj (hd.symm.trans hd')
    obtain rfl := List.mem_singleton.1 ht
    rw [hkey]
    exact hfirst
  have hfollows : ¬ sample.Leads w₁.store.values c := by
    intro hleads'
    have howner := hleads' _ hd lowerSubnet List.mem_cons_self
    rw [hkey] at howner
    exact absurd (hbehind.symm.trans howner) (by decide)
  have hmoved := (hkept _ (List.Perm.refl _)).2 Records.accepting hroom hfollows
  obtain ⟨m', hm', hother⟩ := hmoved
  exact ⟨hnames, (hkept _ (List.reverse_perm _)).1 hleads, c, m', hc, hm', hother⟩

end HostSubnets.Reconciler
