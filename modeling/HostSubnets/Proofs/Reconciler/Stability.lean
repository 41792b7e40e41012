import HostSubnets.Proofs.Reconciler.Demand

/-!
# What a run leaves as it is

For a node with a record, alone on a sound world. `record_of_undemanded`, `heldBy_of_undemanded` : a node that needs
no subnets keeps what it holds and gets at most the id of the network. `declared_held_iff` : after a failure from the
current record the node still holds, of what it declares and held, the subnets that it stays with; the others were
given back before the failure. `stable_iff_agrees` : exactly when a run from any other copy of the record leaves the
declared subnets as they are and reserves nothing.
-/

namespace HostSubnets.Reconciler

open HostSubnets.Task

variable {σ : Type} {ops : StoreOps σ} {records : σ → Records} {r : Reconciler} {n c : Node} {w : World σ}

/-! ## Where nothing is settled -/

theorem shared_recorded (hn : n.isUnmanaged = false) (hper : r.network.perNode = false) (hc : c.key = n.key)
    {H : Set Cidr} :
    (r.addOrUpdate n).Always (Request.Seen .cluster n.key) (fun _ => True)
      (fun result v => (r.declaredId n = some r.network.id ∧ result = .ok () ∧ v = ⟨H, some c⟩) ∨
        Recorded (r.declare none) c H H result v) ⟨H, some c⟩ := by
  have hconclude : ∀ held, (r.conclude n held none).Always (Request.Seen .cluster n.key) (fun _ => True)
      (fun result v => (r.declaredId n = some r.network.id ∧ result = .ok () ∧ v = ⟨H, some c⟩) ∨
        Recorded (r.declare none) c H H result v) ⟨H, some c⟩ := by
    intro held
    unfold conclude
    simp only [Option.map_none, Option.any_none, Option.getD_none]
    split
    · rename_i hid
      rw [always_bind, if_neg (by simp)]
      exact Or.inl ⟨by simpa using hid, rfl, rfl⟩
    · exact (writeOrUndo_always r hc (B := H) (by simp) (by simp) trivial trivial fun _ _ => trivial).imp
        fun _ _ hv => Or.inr hv
  rw [addOrUpdate_managed hn, always_bind, syncManaged_shared hper, always_bind]
  intro held v hstep
  obtain ⟨hheld, hrecord⟩ := Request.seen_pool_self.1 hstep
  obtain rfl : v = ⟨H, some c⟩ := View.ext hheld.1 hrecord
  refine ⟨trivial, (hconclude held).imp fun result v hv => ?_⟩
  refine (thenRecord_always trivial result).imp ?_
  rintro _ _ ⟨rfl, rfl⟩
  exact hv

theorem shared_always (hn : n.isUnmanaged = false) (hper : r.network.perNode = false) (hc : c.key = n.key)
    {H : Set Cidr} :
    (r.addOrUpdate n).Always (Request.Seen .cluster n.key) (fun _ => True)
      (fun result v => v.held = H ∧ ∀ e, result = .error e → v.record = some c) ⟨H, some c⟩ := by
  refine (shared_recorded hn hper hc).imp fun result v hv => ?_
  rcases hv with ⟨-, rfl, rfl⟩ | hrecorded
  · exact ⟨rfl, fun e he => by cases he⟩
  · cases result with
    | error e =>
      obtain rfl : v = ⟨H, some c⟩ := hrecorded
      exact ⟨rfl, fun _ _ => rfl⟩
    | ok _ =>
      obtain ⟨m, -, rfl⟩ := hrecorded
      exact ⟨rfl, fun e he => by cases he⟩

section Undemanded

variable (hops : ops.Faithful records) (hw : w.Sound records) (hn : (records w.store).find? n.key = some n)
include hops hw hn

/-- A run that settles nothing leaves the current record as it is, which after a success has the id of the network if
the node is managed, or writes that id and nothing else. -/
theorem record_of_undemanded (hd : r.demand? n = none) :
    ((records ((r.addOrUpdate n).runAlone ops w).2.store).find? n.key = some n ∧
        (((r.addOrUpdate n).runAlone ops w).1 = .ok () → n.isUnmanaged = false →
          r.declaredId n = some r.network.id)) ∨
      ∃ m, (records ((r.addOrUpdate n).runAlone ops w).2.store).find? n.key = some m ∧
        Written (r.declare none) n m := by
  rcases demand?_none_cases hd with ⟨hmanaged, hper⟩ | ⟨hunmanaged, hserved⟩
  · have hview : w.view records .cluster n.key = ⟨w.cluster.heldBy n.key, some n⟩ := View.ext rfl hn
    have hshared := shared_recorded (H := w.cluster.heldBy n.key) hmanaged hper (rfl : n.key = n.key)
    rw [← hview] at hshared
    rcases runAlone_of_always hops hw hshared with ⟨hdeclared, -, hv⟩ | hrecorded
    · exact Or.inl ⟨(congrArg View.record hv).trans hn, fun _ _ => hdeclared⟩
    · generalize ((r.addOrUpdate n).runAlone ops w).1 = result at hrecorded
      cases result with
      | error e => exact Or.inl ⟨congrArg View.record hrecorded, fun he => by cases he⟩
      | ok _ =>
        obtain ⟨m, hm, hv⟩ := hrecorded
        exact Or.inr ⟨m, congrArg View.record hv, hm⟩
  · have hskipped := (runAlone_thenRecord (r := r) hops hw (.ok ()) .overlay n.key).2
    rw [← addOrUpdate_skipped hunmanaged hserved] at hskipped
    refine Or.inl ⟨(congrArg View.record hskipped).trans hn, fun _ hmanaged => ?_⟩
    rw [hunmanaged] at hmanaged
    cases hmanaged

theorem heldBy_of_undemanded (hd : r.demand? n = none) (which : PoolName) :
    (((r.addOrUpdate n).runAlone ops w).2.pool which).heldBy n.key = (w.pool which).heldBy n.key := by
  rcases demand?_none_cases hd with ⟨hmanaged, hper⟩ | ⟨hunmanaged, hserved⟩
  · have hpool : poolFor n = .cluster := by
      rw [poolFor, hmanaged]
      rfl
    cases which with
    | cluster =>
      have hview : w.view records .cluster n.key = ⟨w.cluster.heldBy n.key, some n⟩ := View.ext rfl hn
      have hshared := shared_always (H := w.cluster.heldBy n.key) hmanaged hper (rfl : n.key = n.key)
      rw [← hview] at hshared
      exact (runAlone_of_always hops hw hshared).1
    | overlay =>
      have hother := addOrUpdate_on r n
      rw [hpool] at hother
      rw [pool_runAlone hops hw hother (by decide)]
  · have hskipped := (runAlone_thenRecord (r := r) hops hw (.ok ()) which n.key).2
    rw [addOrUpdate_skipped hunmanaged hserved]
    exact congrArg View.held hskipped

end Undemanded

/-! ## After a failure -/

/-- **What a failed run from the current record leaves to the node.** The record is unchanged. A subnet that it
declares and that was held is held afterwards, by the node alone, exactly if nodes have no subnets of their own or it
is the first of an enabled family that the node can have; reconciling gives back the others before it fails. -/
theorem declared_held_iff (hops : ops.Faithful records) (hw : w.Sound records) (hn : n.isUnmanaged = false)
    (hrecord : (records w.store).find? n.key = some n) {e : ControlError} {w' : World σ}
    (hrun : (r.addOrUpdate n).runAlone ops w = (.error e, w')) :
    (records w'.store).find? n.key = some n ∧
      ∀ t ∈ r.declaredSubnets n, t ∈ w.cluster.allocated n.key → ∀ o, t ∈ w'.cluster.allocated o ↔
        o = n.key ∧ (r.network.perNode = false ∨
          w.cluster.Retains n.key r.network.families (r.declaredSubnets n) t) := by
  have hview : (records w'.store).find? n.key = some n ∧ ∀ t ∈ r.declaredSubnets n, t ∈ w.cluster.allocated n.key →
      (t ∈ w'.cluster.heldBy n.key ↔ r.network.perNode = false ∨
        w.cluster.Retains n.key r.network.families (r.declaredSubnets n) t) := by
    cases hper : r.network.perNode with
    | false =>
      have hstart : w.view records .cluster n.key = ⟨w.cluster.heldBy n.key, some n⟩ := View.ext rfl hrecord
      have hshared := shared_always (H := w.cluster.heldBy n.key) hn hper (rfl : n.key = n.key)
      rw [← hstart] at hshared
      obtain ⟨hheld, hsame⟩ := runAlone_of_always hops hw hshared
      rw [hrun] at hheld hsame
      refine ⟨hsame e rfl, fun t _ ht => ?_⟩
      rw [show w'.cluster.heldBy n.key = w.cluster.heldBy n.key from hheld]
      simp [Pool.mem_heldBy, ht]
    | true =>
      have hd := demand?_managed hn hper
      have houtcome := addOrUpdate_outcome hops hw hd hrecord
      rw [hrun] at houtcome
      obtain ⟨hheld, hsame⟩ : w'.cluster.heldBy n.key =
            w.cluster.remains n.key r.network.families (r.declaredSubnets n) ∧
          (records w'.store).find? n.key = some n := by
        generalize hv : w'.view records .cluster n.key = v at houtcome
        cases houtcome with
        | starved => exact ⟨congrArg View.held hv, congrArg View.record hv⟩
        | unwritten => exact ⟨congrArg View.held hv, congrArg View.record hv⟩
      refine ⟨hsame, fun t hdeclared _ => ?_⟩
      rw [hheld, Pool.remains, Set.mem_ofPred_eq]
      simp [hdeclared]
  refine ⟨hview.1, fun t hdeclared ht o => ?_⟩
  by_cases ho : o = n.key
  · subst ho
    rw [← hview.2 t hdeclared ht]
    simp [Pool.mem_heldBy]
  · -- another name holds what it held, and the node held `t`
    have hother := view_runAlone hops hw (addOrUpdate_only r n) .cluster (Ne.symm ho)
    rw [hrun] at hother
    have hsame : t ∈ w'.cluster.allocated o ↔ t ∈ w.cluster.allocated o := Set.ext_iff.1 (congrArg View.held hother) t
    have hcoherent : w.cluster.Coherent := hw.pools .cluster
    have hnot : t ∉ w.cluster.allocated o := by
      rw [hcoherent.mirrored o t, (hcoherent.mirrored n.key t).1 ht]
      exact fun heq => ho (Option.some.inj heq).symm
    rw [hsame]
    simp [hnot, ho]

def greedy : Node :=
  { Node.named "a" with annotations := some (TextMap.setSubnets Network.defaultName [lowerSubnet, upperSubnet] .empty) }

/-- A store of that node alone, which refuses the first write. -/
def greedyStore : ScriptedStore.Refuser :=
  ⟨{ ScriptedStore.empty with records := Records.put greedy .empty, writeFaults := [.server] }, by decide⟩

def afterSync : World ScriptedStore.Refuser := sample.launch ScriptedStore.refuserOps [greedy] greedyStore

def refusal (name : String) : ControlError := .update name (.store (.api (.status 500 "Injected")))

/-- The refused write: the node held both subnets and still declares both, but holds the first alone. -/
theorem greedy_loses_second :
    (∀ t ∈ sample.declaredSubnets greedy, t ∈ afterSync.cluster.allocated "a") ∧
      afterSync.store.1.records.find? "a" = some greedy ∧
        let run := (sample.addOrUpdate greedy).runAlone ScriptedStore.refuserOps afterSync
        run.1 = .error (refusal "a") ∧ run.2.store.1.records.find? "a" = some greedy ∧
          ∃ t ∈ sample.declaredSubnets greedy, t ∉ run.2.cluster.allocated "a" := by
  decide +kernel

theorem greedy_keeps_first :
    let w' := ((sample.addOrUpdate greedy).runAlone ScriptedStore.refuserOps afterSync).2
    w'.store.1.records.find? "a" = some greedy ∧
      ∀ t ∈ sample.declaredSubnets greedy, ∀ o, t ∈ w'.cluster.allocated o ↔
        o = "a" ∧ t = lowerSubnet := by
  have hkeyed : greedyStore.1.records.Keyed := Records.keyed_empty.insert (n := greedy) rfl
  have hsound : afterSync.Sound fun s => s.1.records := sound_launch ScriptedStore.faithful hkeyed
  have hfails : ((sample.addOrUpdate greedy).runAlone ScriptedStore.refuserOps afterSync).1 =
      .error (refusal "a") := by decide +kernel
  have hheld : ∀ t ∈ sample.declaredSubnets greedy, t ∈ afterSync.cluster.allocated greedy.key := by decide +kernel
  have hfirst : ∀ t ∈ sample.declaredSubnets greedy, (sample.network.perNode = false ∨
      afterSync.cluster.Retains greedy.key sample.network.families (sample.declaredSubnets greedy) t) ↔
        t = lowerSubnet := by decide +kernel
  generalize hrun : (sample.addOrUpdate greedy).runAlone ScriptedStore.refuserOps afterSync = run at hfails
  obtain ⟨result, w'⟩ := run
  obtain rfl : result = .error (refusal "a") := hfails
  obtain ⟨hrecord, hiff⟩ := declared_held_iff (n := greedy) ScriptedStore.faithful hsound (by decide +kernel)
    (by decide +kernel) hrun
  refine ⟨hrecord, fun t ht o => ?_⟩
  rw [hiff t ht (hheld t ht), hfirst t ht]
  rfl

/-! ## From another copy -/

/-- No name holds anything that it did not hold before. -/
def AddsNothing (w w' : World σ) : Prop :=
  ∀ which o t, t ∈ (w'.pool which).allocated o → t ∈ (w.pool which).allocated o

/-- The record of a node still declares the same subnets, and no name holds a new one. -/
structure Stable (r : Reconciler) (records : σ → Records) (name : String) (w w' : World σ) : Prop where
  declared : ∃ c m, (records w.store).find? name = some c ∧ (records w'.store).find? name = some m ∧
    (r.declaredSubnets m).Perm (r.declaredSubnets c)
  nothing : AddsNothing w w'

theorem addsNothing_iff (hops : ops.Faithful records) (hw : w.Sound records) {name : String} {which : PoolName}
    {α : Type} {program : Program α} (h : program.Only (Request.On name which) Request.Named) :
    AddsNothing w (program.runAlone ops w).2 ↔
      ((program.runAlone ops w).2.view records which name).held ⊆ (w.view records which name).held := by
  refine ⟨fun hadds t ht => hadds which name t ht, fun hsub x o t ht => ?_⟩
  by_cases hx : x = which
  · subst hx
    by_cases ho : o = name
    · subst ho
      exact hsub ht
    · have hother := view_runAlone hops hw (h.mono fun _ hq => hq.isBy) x (Ne.symm ho)
      exact (Set.ext_iff.1 (congrArg View.held hother) t).1 ht
  · rw [pool_runAlone hops hw h hx] at ht
    exact ht

/-- Whether a copy of a node's record asks for what the node has, where the record declares `D`. What the node stays
with of the declared subnets is held already; and it is one subnet of each wanted family (or the run fails for want of
subnets), those of `D` in the cluster, unless the copy is complete, so that nothing is written. -/
def Agrees (r : Reconciler) (n : Node) (D : List Cidr) (w : World σ) : Prop :=
  ∀ d, r.demand? n = some d →
    (∀ s ∈ d.existing, (w.pool d.pool).Retains n.key d.families d.existing s → s ∈ (w.pool d.pool).allocated n.key) ∧
      ((w.pool d.pool).Starved n.key d.families d.existing ∨
        (∀ f, d.families.wants f = true → ((w.pool d.pool).pick n.key d.existing f).isSome = true) ∧
          (d.pool = .cluster →
            (∀ s ∈ d.existing, (w.pool d.pool).Retains n.key d.families d.existing s → s ∈ D) ∨
              r.Complete n d (w.pool d.pool)))

theorem remains_subset_iff {p : Pool} {o : String} {families : Families} {existing : List Cidr} :
    p.remains o families existing ⊆ p.heldBy o ↔
      ∀ s ∈ existing, p.Retains o families existing s → s ∈ p.allocated o := by
  constructor
  · exact fun h s _ hs => h (Or.inr hs)
  · rintro h s (hs | hs)
    · exact hs.1
    · exact h s hs.mem hs

theorem declaredSubnets_entry_overlay {subnets : List Cidr} {m : Node} (h : Written (r.entry .overlay subnets) c m) :
    r.declaredSubnets m = r.declaredSubnets c := by
  obtain ⟨version, rfl⟩ := h
  have hread : Node.subnets? r.network.name { c.changeAnnotations (r.entry .overlay subnets) with version } =
      c.subnets? r.network.name := by
    cases subnets with
    | nil =>
      refine Node.subnets?_congr ?_ _
      exact (Node.annotationAt?_eq c _).symm
    | cons subnet rest => exact Node.subnets?_setOverlaySubnet r.network.name subnet c
  unfold declaredSubnets
  rw [hread]

section Agreement

variable {d : Demand} {D : List Cidr} {result : Except ControlError Unit} {v : View} {accepting : Prop}

/-- **A copy that agrees changes nothing**, however the run ends. -/
theorem Agrees.unchanged (h : r.Agrees n D w) (hd : r.demand? n = some d) (hdeclared : r.declaredSubnets c = D)
    (hserves : r.network.families.Serves D) (hout : r.Outcome n d (w.pool d.pool) c accepting result v) :
    v.held ⊆ (w.pool d.pool).heldBy n.key ∧ ∃ m, v.record = some m ∧ (r.declaredSubnets m).Perm D := by
  obtain ⟨hheld, hpicks⟩ := h d hd
  have hremains := remains_subset_iff.2 hheld
  have hsame : ∃ m, some c = some m ∧ (r.declaredSubnets m).Perm D := ⟨c, rfl, by rw [hdeclared]⟩
  have hnone : ∀ {a}, ¬ (w.pool d.pool).Starved n.key d.families d.existing →
      (w.pool d.pool).Settles n.key d.families d.existing a → a.allocated = [] :=
    fun hstarved ha => ha.allocated_eq_nil_iff.2 (hpicks.resolve_left hstarved).1
  cases hout with
  | starved => exact ⟨hremains, hsame⟩
  | unwritten => exact ⟨hremains, hsame⟩
  | confirmed hstarved ha =>
    refine ⟨?_, hsame⟩
    rintro s (hs | hs)
    · exact hremains hs
    · rw [hnone hstarved ha] at hs
      cases hs
  | @written a m hstarved ha hother hm =>
    have hempty := hnone hstarved ha
    refine ⟨?_, m, rfl, ?_⟩
    · rintro s (hs | hs)
      · exact hremains hs
      · rw [hempty] at hs
        cases hs
    · rcases demand?_cases hd with ⟨-, -, rfl⟩ | ⟨-, -, rfl⟩
      · have hwritten : r.declaredSubnets m = a.subnets := declaredSubnets_written hm
        rw [hwritten]
        rcases (hpicks.resolve_left hstarved).2 rfl with hsub | hcurrent
        · refine (List.perm_ext_iff_of_nodup ha.serves.1.nodup hserves.1.nodup).2 fun s => ?_
          have hmem : ∀ s ∈ a.subnets, s ∈ D := by
            intro s hs
            rcases (ha.mem_subnets s).1 hs with hretains | hnew
            · exact hsub s hretains.mem hretains
            · rw [hempty] at hnew
              cases hnew
          refine ⟨hmem s, fun hs => ?_⟩
          obtain ⟨t, ht, hfam⟩ := ha.serves.2 s.family (hserves.1.2 s hs)
          obtain rfl := hserves.1.eq_of_family (hmem t ht) hs hfam
          exact ht
        · exact absurd ((confirms_iff hd ha.toFits).2 hcurrent) hother
      · rw [declaredSubnets_entry_overlay hm, hdeclared]

/-- A run that changes nothing, on a store that accepts writes, was from a copy that agrees. -/
theorem agrees_of_unchanged (hd : r.demand? n = some d) (haccept : accepting)
    (hout : r.Outcome n d (w.pool d.pool) c accepting result v) (hheld : v.held ⊆ (w.pool d.pool).heldBy n.key)
    (hrecord : ∃ m, v.record = some m ∧ (r.declaredSubnets m).Perm D) : r.Agrees n D w := by
  intro d' hd'
  obtain rfl := Option.some.inj (hd.symm.trans hd')
  have hfresh : ∀ {a}, (w.pool d.pool).Settles n.key d.families d.existing a →
      {s | s ∈ (w.pool d.pool).remains n.key d.families d.existing ∨ s ∈ a.allocated} ⊆
        (w.pool d.pool).heldBy n.key → a.allocated = [] := by
    intro a ha hsub
    rw [List.eq_nil_iff_forall_not_mem]
    exact fun s hs => ha.fresh s hs (hsub (Or.inr hs))
  cases hout with
  | starved hstarved => exact ⟨remains_subset_iff.1 hheld, Or.inl hstarved⟩
  | unwritten _ _ _ hrefused => exact absurd haccept hrefused
  | @confirmed a _ ha hsame =>
    have hempty := hfresh ha hheld
    refine ⟨remains_subset_iff.1 fun s hs => hheld (Or.inl hs), Or.inr ⟨ha.allocated_eq_nil_iff.1 hempty, ?_⟩⟩
    exact fun _ => Or.inr ((confirms_iff hd ha.toFits).1 hsame)
  | @written a m _ ha _ hm =>
    have hempty := hfresh ha hheld
    refine ⟨remains_subset_iff.1 fun s hs => hheld (Or.inl hs), Or.inr ⟨ha.allocated_eq_nil_iff.1 hempty, ?_⟩⟩
    rcases demand?_cases hd with ⟨-, -, rfl⟩ | ⟨-, -, rfl⟩
    · refine fun _ => Or.inl fun s _ hretains => ?_
      obtain ⟨m', hm', hperm⟩ := hrecord
      obtain rfl := Option.some.inj hm'
      have hwritten : r.declaredSubnets m = a.subnets := declaredSubnets_written hm
      rw [hwritten] at hperm
      exact hperm.mem_iff.1 ((ha.mem_subnets s).2 (Or.inl hretains))
    · rintro ⟨⟩

end Agreement

/-- **When a run from any copy of a node's record leaves everything as it is.** The record declares one subnet of each
enabled family. If the copy agrees with it, the run leaves the declared subnets as they are, in whatever order, and
reserves nothing for anybody, even if it fails; and on a store that accepts writes a copy that does not agree changes
one or the other. -/
theorem stable_iff_agrees (hops : ops.Faithful records) (hper : r.network.perNode = true) (hw : w.Sound records)
    (hc : (records w.store).find? n.key = some c) (hserves : r.network.families.Serves (r.declaredSubnets c)) :
    let w' := ((r.addOrUpdate n).runAlone ops w).2
    (r.Agrees n (r.declaredSubnets c) w → r.Stable records n.key w w') ∧
      (ops.Accepting records → r.Stable records n.key w w' → r.Agrees n (r.declaredSubnets c) w) := by
  intro w'
  have hstable : r.Stable records n.key w w' ↔
      (w'.view records (poolFor n) n.key).held ⊆ (w.pool (poolFor n)).heldBy n.key ∧
        ∃ m, (w'.view records (poolFor n) n.key).record = some m ∧
          (r.declaredSubnets m).Perm (r.declaredSubnets c) := by
    have hadds : AddsNothing w w' ↔ _ := addsNothing_iff hops hw (addOrUpdate_on r n)
    constructor
    · rintro ⟨⟨c', m, hc', hm, hperm⟩, hnothing⟩
      obtain rfl := Option.some.inj (hc.symm.trans hc')
      exact ⟨hadds.1 hnothing, m, hm, hperm⟩
    · rintro ⟨hheld, m, hm, hperm⟩
      exact ⟨⟨c, m, hc, hm, hperm⟩, hadds.2 hheld⟩
  rw [hstable]
  cases hd : r.demand? n with
  | none =>
    have hagrees : r.Agrees n (r.declaredSubnets c) w := by
      intro d hd'
      cases hd.symm.trans hd'
    have hskipped : (r.addOrUpdate n).Always (Request.Seen (poolFor n) n.key) (fun _ => True)
        (fun _ v => v = w.view records (poolFor n) n.key) (w.view records (poolFor n) n.key) := by
      obtain ⟨hn, hserved⟩ := skipped_of_demand? hper hd
      rw [addOrUpdate_skipped hn hserved]
      refine (thenRecord_always trivial (.ok ())).imp ?_
      rintro _ _ ⟨-, rfl⟩
      rfl
    have hsame : w'.view records (poolFor n) n.key = w.view records (poolFor n) n.key :=
      runAlone_of_always hops hw hskipped
    rw [hsame]
    exact ⟨fun _ => ⟨subset_rfl, c, hc, List.Perm.refl _⟩, fun _ _ => hagrees⟩
  | some d =>
    have hout := addOrUpdate_outcome hops hw hd hc
    rw [← pool_of_demand? hd]
    exact ⟨fun hagrees => hagrees.unchanged hd rfl hserves hout,
      fun haccept ⟨hheld, hrecord⟩ => agrees_of_unchanged hd haccept hout hheld hrecord⟩

/-! ## Two old copies -/

/-- A node that declared nothing was handled once. -/
def handledOnce : World Records :=
  ((sample.addOrUpdate (.named "a")).runAlone Records.ops
    (sample.launch Records.ops [.named "a"] (Records.put (.named "a") .empty))).2

/-- Its record before that: the run from it reserves the other subnet too, and renumbers the node. -/
theorem firstVersion_renumbers :
    (handledOnce.store.find? "a").map (fun c => (c.isUnmanaged, sample.declaredSubnets c, sample.declaredId c)) =
        some (false, [lowerSubnet], some sample.network.id) ∧
      handledOnce.cluster.allocated "a" = [lowerSubnet] ∧
        let w' := ((sample.addOrUpdate (.named "a")).runAlone Records.ops handledOnce).2
        (w'.store.find? "a").map sample.declaredSubnets = some [upperSubnet] ∧
          w'.cluster.allocated "a" = [lowerSubnet, upperSubnet] := by
  decide +kernel

/-- A copy with the declared subnet, from before the id was written. -/
def withoutId : Node :=
  { Node.named "a" with annotations := some (TextMap.setSubnets Network.defaultName [lowerSubnet] .empty) }

/-- That one agrees with the record and changes nothing of it; the one that declared nothing does not agree, so where
writes are accepted it does. -/
theorem withoutId_stable :
    sample.Stable id "a" handledOnce ((sample.addOrUpdate withoutId).runAlone Records.ops handledOnce).2 ∧
      ¬ sample.Stable id "a" handledOnce ((sample.addOrUpdate (.named "a")).runAlone Records.ops handledOnce).2 := by
  have hsome : (handledOnce.store.find? "a").map sample.declaredSubnets = some [lowerSubnet] := by decide +kernel
  obtain ⟨c, hc, hdeclared⟩ := Option.map_eq_some_iff.1 hsome
  have hkeyed : Records.Keyed (Records.put (.named "a") .empty) := Records.keyed_empty.insert rfl
  have hsound : handledOnce.Sound id := Sound.runAlone Records.faithful (sound_launch Records.faithful hkeyed) _
  have hserves : sample.network.families.Serves (sample.declaredSubnets c) := by
    rw [hdeclared]
    decide +kernel
  have hdemand : sample.demand? withoutId = some ⟨.cluster, sample.network.families, [lowerSubnet]⟩ := by decide +kernel
  have hagrees : sample.Agrees withoutId (sample.declaredSubnets c) handledOnce := by
    rw [hdeclared]
    intro d hd
    obtain rfl := Option.some.inj (hdemand.symm.trans hd)
    refine ⟨by decide +kernel, Or.inr ⟨fun f => ?_, fun _ => Or.inl (by decide +kernel)⟩⟩
    cases f <;> decide +kernel
  have hdemand' : sample.demand? (.named "a") = some ⟨.cluster, sample.network.families, []⟩ := by decide +kernel
  have hdiffers : ¬ sample.Agrees (.named "a") (sample.declaredSubnets c) handledOnce := by
    intro hagrees'
    rcases (hagrees' _ hdemand').2 with hstarved | ⟨hpicks, -⟩
    · exact absurd hstarved (by decide +kernel)
    · exact absurd (hpicks .v4 rfl) (by decide +kernel)
  refine ⟨(stable_iff_agrees (n := withoutId) Records.faithful rfl hsound hc hserves).1 hagrees, fun hstable => ?_⟩
  exact hdiffers ((stable_iff_agrees (n := .named "a") Records.faithful rfl hsound hc hserves).2 Records.accepting hstable)

end HostSubnets.Reconciler
