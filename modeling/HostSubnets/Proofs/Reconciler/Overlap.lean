import HostSubnets.Proofs.Reconciler.Restart
import HostSubnets.Proofs.Reconciler.Service

/-!
# Ranges of both pools

A start that succeeds has registered all ranges of the configuration, each with those of its own pool only compared
(`networks_start`). The calls that follow, any number at a time, register nothing more and so hold nothing outside of
the ranges (`upheld_registers`). As every address of a range lies in one of its host subnets, the two pools come to hold
a common address in some run exactly if two ranges have one (`held_apart_iff`).
-/

namespace HostSubnets.Reconciler

open HostSubnets.Task

variable {σ : Type} {ops : StoreOps σ} {records : σ → Records} {r : Reconciler} {w : World σ} {which : PoolName}
  {t u : Cidr}

/-! ## What a start registers -/

def World.networks (w : World σ) (which : PoolName) : List Cidr := (w.pool which).blocks.map Block.network

theorem register_runAlone (ops : StoreOps σ) (which : PoolName) (ranges : List SubnetRange) (w : World σ)
    (hok : ((register which ranges).runAlone ops w).1 = .ok ()) (x : PoolName) :
    ((register which ranges).runAlone ops w).2.networks x =
      w.networks x ++ if x = which then ranges.map fun range => range.network.masked else [] := by
  induction ranges generalizing w with
  | nil =>
    rw [List.map_nil, ite_self, List.append_nil]
    rfl
  | cons range rest ih =>
    unfold register at hok ⊢
    rw [runAlone_askPool] at hok ⊢
    rcases Pool.addRange_cases range.network range.hostLength (w.pool which) with
      ⟨b, hnetwork, -, -, hadded⟩ | ⟨e, hadded⟩
    · have hperform : (Pool.Request.addRange range.network range.hostLength).perform (w.pool which) =
          (.ok (), ⟨(w.pool which).blocks ++ [b], (w.pool which).held⟩) := hadded
      rw [hperform] at hok ⊢
      refine (ih _ hok).trans ?_
      unfold World.networks
      rw [World.pool_setPool]
      split
      · rename_i hx
        subst hx
        rw [List.map_append, List.append_assoc, List.map_cons, hnetwork]
        rfl
      · rfl
    · have hperform : (Pool.Request.addRange range.network range.hostLength).perform (w.pool which) =
          (.error e, w.pool which) := hadded
      rw [hperform] at hok
      cases hok

/-- **A start that succeeds has registered the ranges of the configuration**, named by their first addresses. -/
theorem networks_start {s : σ} (hstart : (r.start.runAlone ops (World.start s)).1 = .ok ()) (which : PoolName) :
    (r.start.runAlone ops (World.start s)).2.networks which =
      (r.ranges which).map fun range => range.network.masked := by
  have hproblem := problem?_of_start hstart
  have hnone : ∀ x, (World.start s).networks x = [] := by
    intro x
    cases x <;> rfl
  unfold start at hstart ⊢
  rw [hproblem] at hstart ⊢
  dsimp only at hstart ⊢
  rw [runAlone_bind] at hstart ⊢
  have hcluster := register_runAlone ops .cluster (r.ranges .cluster) (World.start s)
  generalize (register .cluster (r.ranges .cluster)).runAlone ops (World.start s) = first at hstart hcluster ⊢
  obtain ⟨result, w⟩ := first
  cases result with
  | error e => cases hstart
  | ok _ =>
    dsimp only at hstart hcluster ⊢
    rw [runAlone_bind] at hstart ⊢
    have hoverlay := register_runAlone ops .overlay (r.ranges .overlay) w
    generalize (register .overlay (r.ranges .overlay)).runAlone ops w = second at hstart hoverlay ⊢
    obtain ⟨result, w'⟩ := second
    cases result with
    | error e => cases hstart
    | ok _ =>
      have hcounted : (r.recordCapacity >>= fun _ => pure (.ok ()) : Program (Except ControlError Unit)).Idles ops
          (.ok ()) w' := (idles_recordCapacity r w').bind (idles_pure _ _)
      have hpool := hcounted.pools which
      have hend : w'.networks which = (r.ranges which).map fun range => range.network.masked := by
        rw [hoverlay rfl which, hcluster rfl which, hnone which]
        cases which with
        | cluster => exact List.append_nil _
        | overlay => rfl
      unfold World.networks at hend ⊢
      rw [show _ = w'.pool which from hpool]
      exact hend

/-- Host subnets of two pools meet somewhere exactly if ranges of theirs do. -/
theorem exists_meets_iff {p q : Pool} :
    (∃ t u, p.Hosts t ∧ q.Hosts u ∧ t.Meets u) ↔
      ∃ c ∈ p.blocks.map Block.network, ∃ d ∈ q.blocks.map Block.network, c.Meets d := by
  constructor
  · rintro ⟨t, u, ht, hu, hfamily, a, hta, hua⟩
    obtain ⟨b, hb, hbt, hba⟩ := Pool.exists_hosts_covers_iff.1 ⟨t, ht, rfl, hta⟩
    obtain ⟨c, hc, hcu, hca⟩ := Pool.exists_hosts_covers_iff.1 ⟨u, hu, rfl, hua⟩
    refine ⟨b.network, List.mem_map_of_mem hb, c.network, List.mem_map_of_mem hc, ?_, a, hba, hca⟩
    rw [hbt, hcu, hfamily]
  · rintro ⟨_, hmem, _, hmem', hfamily, a, hba, hca⟩
    obtain ⟨b, hb, rfl⟩ := List.mem_map.1 hmem
    obtain ⟨c, hc, rfl⟩ := List.mem_map.1 hmem'
    obtain ⟨t, ht, htb, hta⟩ := Pool.exists_hosts_covers_iff.2 ⟨b, hb, rfl, hba⟩
    obtain ⟨u, hu, huc, hua⟩ := Pool.exists_hosts_covers_iff.2 ⟨c, hc, rfl, hca⟩
    exact ⟨t, u, ht, hu, htb.trans (hfamily.trans huc.symm), a, hta, hua⟩

theorem exists_meets_start_iff {s : σ} (hstart : (r.start.runAlone ops (World.start s)).1 = .ok ()) :
    (∃ t u, (r.start.runAlone ops (World.start s)).2.cluster.Hosts t ∧
        (r.start.runAlone ops (World.start s)).2.overlay.Hosts u ∧ t.Meets u) ↔
      ∃ c ∈ r.ranges .cluster, ∃ d ∈ r.ranges .overlay, c.network.Meets d.network := by
  have hcluster := networks_start hstart .cluster
  have hoverlay := networks_start hstart .overlay
  unfold World.networks World.pool at hcluster hoverlay
  rw [exists_meets_iff, hcluster, hoverlay]
  constructor
  · rintro ⟨_, hmem, _, hmem', hmeets⟩
    obtain ⟨c, hc, rfl⟩ := List.mem_map.1 hmem
    obtain ⟨d, hd, rfl⟩ := List.mem_map.1 hmem'
    exact ⟨c, hc, d, hd, Cidr.meets_masked.1 hmeets⟩
  · rintro ⟨c, hc, d, hd, hmeets⟩
    exact ⟨_, List.mem_map_of_mem hc, _, List.mem_map_of_mem hd, Cidr.meets_masked.2 hmeets⟩

/-- **No call registers anything.** -/
theorem upheld_registers (hops : ops.Faithful records) (r : Reconciler) (w₀ : World σ) :
    Service.Upheld r.answer ops records (fun w => w.Registers records w₀)
      (fun _ rest => rest.Only Request.ForName Request.Named) fun _ _ => True where
  store := fun _ _ hw hkeyed => hw.withStore hkeyed
  begin := answer_only r
  advance := fun _ _ q _ hw honly => ⟨hw.perform hops honly.1, honly.2 _ (hw.sound.named_perform hops q)⟩
  finish := fun _ _ _ => trivial

/-! ## Subnets of both pools -/

def clusterNode (r : Reconciler) (t : Cidr) : Node :=
  (Node.named "a").changeAnnotations (TextMap.setSubnets r.network.name [t])

def overlayNode : Node :=
  { Node.named "b" with
    labels := some ((SortedMap.empty.insert Node.unmanagedLabel "").insert Node.systemLabel Node.overlaySystem) }

theorem overlayNode_labels : overlayNode.isUnmanaged = true ∧ overlayNode.isOverlayMember = true := by decide +kernel

theorem exists_sync_holds {s : σ} (ht : (r.start.runAlone ops (World.start s)).2.cluster.Hosts t)
    (hu : (r.start.runAlone ops (World.start s)).2.overlay.Hosts u) :
    ∃ nodes, let w := ((r.sync nodes).runAlone ops (r.start.runAlone ops (World.start s)).2).2
      t ∈ w.cluster.allocated "a" ∧ u ∈ w.overlay.allocated "b" := by
  have hfresh := fresh_runAlone_start ops r s
  have hoverlay : r.hasOverlay = true := by
    by_contra hunused
    have huses : r.uses .overlay = false := Bool.eq_false_iff.2 hunused
    exact not_hosts_start ops r huses s u hu
  have hper := perNode_of_hasOverlay hoverlay
  let m := clusterNode r t
  let v := overlayNode.changeAnnotations (TextMap.setOverlaySubnet u)
  have hm : r.seedsIn m .cluster = [t] ∧ r.seedsIn m .overlay = [] := by
    have hread : m.subnets? r.network.name = .ok (some [t]) := Node.subnets?_setSubnets _ _ _
    have hmanaged : m.isUnmanaged = false := rfl
    unfold seedsIn seeds declaredSubnets
    rw [hmanaged, hread]
    exact ⟨rfl, rfl⟩
  have hv : r.seedsIn v .cluster = [] ∧ r.seedsIn v .overlay = [u] := by
    have hread : v.overlaySubnet? = .ok (some u) := Node.overlaySubnet?_setOverlaySubnet u overlayNode
    have hunmanaged : v.isUnmanaged = true := overlayNode_labels.1
    have hserved : r.servesInOverlay v = true := by
      unfold servesInOverlay
      rw [hoverlay]
      exact overlayNode_labels.2
    unfold seedsIn seeds declaredOverlay
    rw [hunmanaged, hserved, hread]
    exact ⟨rfl, rfl⟩
  have hheld : ∀ which (n : Node) x, ((r.start.runAlone ops (World.start s)).2.pool which).Hosts x →
      ([m, v].find? fun m => x ∈ r.seedsIn m which).map Node.key = some n.key →
        x ∈ (((r.sync [m, v]).runAlone ops (r.start.runAlone ops (World.start s)).2).2.pool which).heldBy n.key :=
    fun which n x hhosts hfirst => hfresh.mem_sync_of_first r hper [m, v] hhosts hfirst
  refine ⟨[m, v], ?_, ?_⟩
  · apply hheld .cluster m t ht
    rw [List.find?_cons_of_pos (by simp [hm.1])]
    rfl
  · apply hheld .overlay v u hu
    rw [List.find?_cons_of_neg (by simp [hm.2]), List.find?_cons_of_pos (by simp [hv.2])]
    rfl

/-- **The pools hold a common address in some run exactly if two ranges have one.** Ranges are compared with those of
their own pool only, so a start succeeds either way. -/
theorem held_apart_iff (hops : ops.Faithful records) {s : σ} (hkeyed : (records s).Keyed)
    (hstart : (r.start.runAlone ops (World.start s)).1 = .ok ()) :
    (∀ y, Relation.ReflTransGen (Service.Step r.answer ops records)
        ⟨(r.start.runAlone ops (World.start s)).2, [], []⟩ y →
      ∀ a b, ∀ t ∈ y.world.cluster.allocated a, ∀ u ∈ y.world.overlay.allocated b, ¬ t.Meets u) ↔
      ∀ c ∈ r.ranges .cluster, ∀ d ∈ r.ranges .overlay, ¬ c.network.Meets d.network := by
  have hiff := exists_meets_start_iff hstart
  constructor
  · intro hapart c hc d hd hmeets
    obtain ⟨t, u, ht, hu, htu⟩ := hiff.2 ⟨c, hc, d, hd, hmeets⟩
    obtain ⟨nodes, hat, hbu⟩ := exists_sync_holds ht hu
    have hrun := Service.answers_alone r.answer ops records (.sync nodes) (r.start.runAlone ops (World.start s)).2 []
    unfold answer at hrun
    rw [runAlone_bind] at hrun
    exact hapart _ hrun "a" "b" t hat u hbu htu
  · intro hranges y hrun a b t ht u hu htu
    have hbegin : (r.start.runAlone ops (World.start s)).2.Registers records
        (r.start.runAlone ops (World.start s)).2 := (sound_start hkeyed).registers
    have hend := (upheld_registers hops r _).run hbegin hrun
    have hhosts : ∀ which x v, v ∈ (y.world.pool which).allocated x →
        ((r.start.runAlone ops (World.start s)).2.pool which).Hosts v :=
      fun which x v hv => hend.world.hosts_of_held hv
    obtain ⟨c, hc, d, hd, hmeets⟩ := hiff.1 ⟨t, u, hhosts .cluster a t ht, hhosts .overlay b u hu, htu⟩
    exact hranges c hc d hd hmeets

/-! ## Two configurations -/

/-- The range of the sample again, divided into subnets of the overlay. -/
def sharing : Reconciler := { sample with overlay := ⟨true, sample.network.clusterRanges⟩ }

/-- One half for the cluster, the other one for the overlay. -/
def parted : Reconciler :=
  ⟨.ofRanges [⟨lowerSubnet, 28, by decide⟩], ⟨true, [⟨upperSubnet, 28, by decide⟩]⟩, .standard⟩

def mixedStore : ScriptedStore.Refuser :=
  ⟨{ ScriptedStore.empty with records := Records.put overlayNode (Records.put (.named "a") .empty) }, by decide⟩

theorem mixedStore_keyed : mixedStore.1.records.Keyed := (Records.keyed_empty.put (.named "a")).put overlayNode

/-- Ranges of its own keep the overlay apart from the cluster. -/
theorem parted_apart :
    (parted.start.runAlone ScriptedStore.refuserOps (World.start mixedStore)).1 = .ok () ∧
      ∀ y, Relation.ReflTransGen (Service.Step parted.answer ScriptedStore.refuserOps fun s => s.1.records)
          ⟨(parted.start.runAlone ScriptedStore.refuserOps (World.start mixedStore)).2, [], []⟩ y →
        ∀ a b, ∀ t ∈ y.world.cluster.allocated a, ∀ u ∈ y.world.overlay.allocated b, ¬ t.Meets u := by
  have hstart : (parted.start.runAlone ScriptedStore.refuserOps (World.start mixedStore)).1 = .ok () := by
    decide +kernel
  have hranges : ∀ c ∈ parted.ranges .cluster, ∀ d ∈ parted.ranges .overlay, ¬ c.network.Meets d.network := by
    decide +kernel
  exact ⟨hstart, (held_apart_iff ScriptedStore.faithful mixedStore_keyed hstart).2 hranges⟩

def sharingStarted : World ScriptedStore.Refuser :=
  (sharing.start.runAlone ScriptedStore.refuserOps (World.start mixedStore)).2

def managedFirst : World ScriptedStore.Refuser :=
  ((sharing.answer (.addOrUpdate (.named "a"))).runAlone ScriptedStore.refuserOps sharingStarted).2

def memberSecond : World ScriptedStore.Refuser :=
  ((sharing.answer (.addOrUpdate overlayNode)).runAlone ScriptedStore.refuserOps managedFirst).2

/-- A range of both pools: the start succeeds, and a managed node and a member of the overlay are given the same
subnet. -/
theorem sharing_meets :
    (sharing.start.runAlone ScriptedStore.refuserOps (World.start mixedStore)).1 = .ok () ∧
      Relation.ReflTransGen (Service.Step sharing.answer ScriptedStore.refuserOps fun s => s.1.records)
        ⟨(sharing.start.runAlone ScriptedStore.refuserOps (World.start mixedStore)).2, [], []⟩
        ⟨memberSecond, [], [(.addOrUpdate overlayNode, .ok ()), (.addOrUpdate (.named "a"), .ok ())]⟩ ∧
      ∃ t ∈ memberSecond.cluster.allocated "a", ∃ u ∈ memberSecond.overlay.allocated "b", t.Meets u := by
  have hfirstOk : ((sharing.answer (.addOrUpdate (.named "a"))).runAlone ScriptedStore.refuserOps
      sharingStarted).1 = .ok () := by decide +kernel
  have hsecondOk : ((sharing.answer (.addOrUpdate overlayNode)).runAlone ScriptedStore.refuserOps
      managedFirst).1 = .ok () := by decide +kernel
  have hfirst := Service.answers_alone sharing.answer ScriptedStore.refuserOps (fun s => s.1.records)
    (.addOrUpdate (.named "a")) sharingStarted []
  have hsecond := Service.answers_alone sharing.answer ScriptedStore.refuserOps (fun s => s.1.records)
    (.addOrUpdate overlayNode) managedFirst [(.addOrUpdate (.named "a"), .ok ())]
  rw [hfirstOk] at hfirst
  rw [hsecondOk] at hsecond
  have hheld : lowerSubnet ∈ memberSecond.cluster.allocated "a" ∧ lowerSubnet ∈ memberSecond.overlay.allocated "b" := by
    decide +kernel
  have hrun := hfirst.trans hsecond
  unfold sharingStarted at hrun
  exact ⟨by decide +kernel, hrun, lowerSubnet, hheld.1, lowerSubnet, hheld.2, lowerSubnet.meets_self⟩

end HostSubnets.Reconciler
