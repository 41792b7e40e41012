import HostSubnets.Proofs.Reconciler.Launch
import Mathlib.Logic.Relation

/-!
# Events handled one at a time

`Handles` : one event, handled before the next one comes. `Tight` : every subnet that is held for a name is declared
by the record of that name, so nothing is held for a name without a record. It holds after the first
reservations (`tight_launch`), whichever order the nodes come in, and is kept by every event, also by one that fails
(`Handles.tight`). So it holds at every time, and after a run that succeeds exactly what the record then declares is
held (`held_declared_after`).
-/

namespace HostSubnets

open HostSubnets.Task

/-! ## Lists that serve the wanted families -/

theorem Families.Serves.perm {families : Families} {l l' : List Cidr} (h : families.Serves l) (hp : l.Perm l') :
    families.Serves l' := by
  obtain ⟨⟨hnodup, hwanted⟩, hall⟩ := h
  refine ⟨⟨((hp.map Cidr.family).nodup_iff).1 hnodup, fun s hs => hwanted s (hp.mem_iff.2 hs)⟩, fun f hf => ?_⟩
  obtain ⟨s, hs, hfam⟩ := hall f hf
  exact ⟨s, hp.mem_iff.1 hs, hfam⟩

namespace Reconciler

theorem perm_of_differs {l existing : List Cidr} (hnodup : l.Nodup) (h : differs l existing = false) :
    l.Perm existing := by
  unfold differs at h
  rw [Bool.or_eq_false_iff] at h
  obtain ⟨hlen, hall⟩ := h
  have hsub : l ⊆ existing := by
    intro s hs
    have hmem := List.any_eq_false.1 hall s hs
    simpa using hmem
  refine (List.subperm_of_subset hnodup hsub).perm_of_length_le ?_
  have heq : l.length = existing.length := by simpa using hlen
  omega

/-! ## Events -/

variable {σ : Type} {ops : StoreOps σ} {records : σ → Records} {r : Reconciler}

/-- One event, handled on its own. -/
inductive Handles (r : Reconciler) (ops : StoreOps σ) (records : σ → Records) : World σ → World σ → Prop where
  | faults {w : World σ} {s : σ} (hs : records s = records w.store) : Handles r ops records w { w with store := s }
  /-- A managed node appears, with any annotations. -/
  | appear {w : World σ} {s : σ} {n : Node} (hnew : (records w.store).find? n.key = none)
      (hmanaged : n.isUnmanaged = false) (hs : records s = (records w.store).insert n.key n) :
      Handles r ops records w { w with store := s }
  | remove {w : World σ} {s : σ} (name : String) (hs : records s = (records w.store).erase name) :
      Handles r ops records w ((r.delete name).runAlone ops { w with store := s }).2
  | update {w : World σ} {n : Node} (hn : (records w.store).find? n.key = some n) :
      Handles r ops records w ((r.addOrUpdate n).runAlone ops w).2

/-- What a name holds is declared by its record, which is that of a managed node. -/
def View.Tight (r : Reconciler) (v : View) : Prop :=
  (∀ n, v.record = some n → n.isUnmanaged = false) ∧
    ∀ t ∈ v.held, ∃ n, v.record = some n ∧ t ∈ r.declaredSubnets n

structure World.Tight (r : Reconciler) (records : σ → Records) (w : World σ) : Prop where
  sound : w.Sound records
  views : ∀ name, (w.view records .cluster name).Tight r

theorem synced_runAlone (hops : ops.Faithful records) (hper : r.network.perNode = true) {w : World σ}
    (hw : w.Sound records) {c n : Node} (hn : n.isUnmanaged = false) (hc : c.key = n.key)
    (hrecord : (records w.store).find? n.key = some c) :
    r.Synced (r.declaredSubnets n) c (w.cluster.heldBy n.key) ((r.addOrUpdate n).runAlone ops w).1
      (((r.addOrUpdate n).runAlone ops w).2.view records .cluster n.key) := by
  have hview : w.view records .cluster n.key = ⟨w.cluster.heldBy n.key, some c⟩ := View.ext rfl hrecord
  have halways : (r.addOrUpdate n).Always (Request.Seen .cluster n.key) (fun _ => True)
      (r.Synced (r.declaredSubnets n) c (w.cluster.heldBy n.key)) (w.view records .cluster n.key) := by
    rw [hview]
    exact addOrUpdate_always hper hn hc (Set.empty_subset _) (Pool.spares_empty _ _) (fun _ _ => trivial)
      fun _ _ _ _ _ _ => trivial
  exact runAlone_of_always hops hw halways

/-- A run from the current record leaves the node holding what its record declares, or less after an error. -/
theorem tight_of_synced {n : Node} {H : Set Cidr} {result : Except ControlError Unit} {v : View}
    (hn : n.isUnmanaged = false) (hH : ∀ t ∈ H, t ∈ r.declaredSubnets n)
    (h : r.Synced (r.declaredSubnets n) n H result v) : v.Tight r := by
  cases result with
  | error e =>
    obtain ⟨kept, B, hkept, rfl⟩ := h
    refine ⟨fun m hm => Option.some.inj hm ▸ hn, fun t ht => ⟨n, rfl, ?_⟩⟩
    rcases (hkept.held_iff t).1 ht with ⟨hold, hnot⟩ | hk
    · exact absurd (hH t hold) hnot
    · exact hkept.mem_existing t hk
  | ok _ =>
    obtain ⟨l, m, hserves, hheld, hrecord, hm⟩ := h
    have hl : ∀ t ∈ v.held, t ∈ l := by
      intro t ht
      rcases (hheld t).1 ht with ⟨hold, hnot⟩ | hk
      · exact absurd (hH t hold) hnot
      · exact hk
    rcases hm with ⟨rfl, hsame⟩ | hwritten
    · refine ⟨fun m' hm' => Option.some.inj (hrecord.symm.trans hm') ▸ hn, fun t ht => ⟨m, hrecord, ?_⟩⟩
      exact (perm_of_differs hserves.1.nodup hsame).mem_iff.1 (hl t ht)
    · refine ⟨fun m' hm' => ?_, fun t ht => ⟨m, hrecord, ?_⟩⟩
      · obtain rfl := Option.some.inj (hrecord.symm.trans hm')
        rw [isUnmanaged_written hwritten, hn]
      · rw [declaredSubnets_written hwritten]
        exact hl t ht

theorem serves_of_synced {n : Node} {H : Set Cidr} {v : View} (hH : ∀ t ∈ H, t ∈ r.declaredSubnets n)
    (h : r.Synced (r.declaredSubnets n) n H (.ok ()) v) :
    ∃ l m, r.network.families.Serves l ∧ v.record = some m ∧ (∀ t, t ∈ v.held ↔ t ∈ l) ∧
      (r.declaredSubnets m).Perm l := by
  obtain ⟨l, m, hserves, hheld, hrecord, hm⟩ := h
  refine ⟨l, m, hserves, hrecord, fun t => ?_, ?_⟩
  · rw [hheld t]
    constructor
    · rintro (⟨hold, hnot⟩ | hl)
      · exact absurd (hH t hold) hnot
      · exact hl
    · exact Or.inr
  · rcases hm with ⟨rfl, hsame⟩ | hwritten
    · exact (perm_of_differs hserves.1.nodup hsame).symm
    · rw [declaredSubnets_written hwritten]

theorem delete_always (hper : r.network.perNode = true) (name : String) (v : View) :
    (r.delete name).Always (Request.Seen .cluster name) (fun _ => True) (fun _ v' => v' = ⟨∅, v.record⟩) v := by
  have hrest : (askPool .cluster (.releaseAll name) >>= fun _ => r.recordCapacity : Program Unit).Always
      (Request.Seen .cluster name) (fun _ => True) (fun _ v' => v' = ⟨∅, v.record⟩) v := by
    rw [always_bind]
    intro reply v' hstep
    obtain ⟨hheld, hrecord⟩ := Request.seen_pool_self.1 hstep
    have hempty : v' = ⟨∅, v.record⟩ := View.ext (hheld.trans (if_pos rfl)) hrecord
    subst hempty
    exact ⟨trivial, recordCapacity_always trivial⟩
  rw [delete_eq, if_pos hper, always_bind]
  split
  · rw [always_bind]
    intro reply v' hstep
    obtain rfl : v' = v := (Request.seen_pool_other (by decide)).1 hstep
    exact ⟨trivial, hrest⟩
  · exact hrest

/-! ## Whole runs -/

section Runs

variable (hops : ops.Faithful records) (hper : r.network.perNode = true)
include hops hper

omit hper in
/-- After the first reservations every node holds a part of what it declares, whoever came first. -/
theorem tight_launch {s : σ} (hkeyed : (records s).Keyed)
    (hmanaged : ∀ n ∈ (records s).values, n.isUnmanaged = false) {nodes : List Node}
    (hnodes : nodes.Perm (records s).values) : (r.launch ops nodes s).Tight r records where
  sound := sound_launch hops hkeyed
  views := by
    intro name
    have hrecord : ((r.launch ops nodes s).view records .cluster name).record = (records s).find? name :=
      congrArg (fun s => (records s).find? name) (store_launch r ops nodes s)
    refine ⟨fun n hn => hmanaged n (SortedMap.mem_values.2 ⟨name, hrecord.symm.trans hn⟩), fun t ht => ?_⟩
    obtain ⟨-, n, hn, rfl, hseedsIn⟩ := declared_of_mem_launch ht
    have hmem := hnodes.mem_iff.1 hn
    have hseeds : t ∈ r.seeds n := hseedsIn
    rw [seeds, hmanaged n hmem] at hseeds
    exact ⟨n, hrecord.trans (hkeyed.mem_values_iff.1 hmem), hseeds⟩

/-- **Every event leaves nothing held that is not declared**, whatever it fails with. -/
theorem Handles.tight {w w' : World σ} (h : Handles r ops records w w') (hw : w.Tight r records) :
    w'.Tight r records := by
  obtain ⟨hsound, hviews⟩ := hw
  cases h with
  | @faults s hs =>
    have hkeyed : (records s).Keyed := by
      rw [hs]
      exact hsound.keyed
    refine ⟨hsound.withStore hkeyed, fun name => ?_⟩
    rw [World.view_withStore, hs]
    exact hviews name
  | @appear s n hnew hmanaged hs =>
    have hkeyed : (records s).Keyed := by
      rw [hs]
      exact hsound.keyed.insert rfl
    refine ⟨hsound.withStore hkeyed, fun name => ?_⟩
    rw [World.view_withStore, hs, SortedMap.find?_insert]
    split
    · rename_i hname
      subst hname
      refine ⟨fun m hm => Option.some.inj hm ▸ hmanaged, fun t ht => ?_⟩
      obtain ⟨m, hm, -⟩ := (hviews n.key).2 t ht
      cases hnew.symm.trans hm
    · exact hviews name
  | @remove s x hs =>
    have hkeyed : (records s).Keyed := by
      rw [hs]
      exact hsound.keyed.erase x
    have herased := hsound.withStore hkeyed
    refine ⟨Sound.runAlone hops herased _, fun name => ?_⟩
    by_cases hname : x = name
    · subst hname
      have hempty := runAlone_of_always hops herased (delete_always hper x _)
      rw [hempty, World.view_withStore, hs, SortedMap.find?_erase, if_pos rfl]
      refine ⟨fun n hn => ?_, fun t ht => ht.elim⟩
      cases hn
    · rw [view_runAlone hops herased (delete_only r x) .cluster hname, World.view_withStore, hs,
        SortedMap.find?_erase, if_neg (Ne.symm hname)]
      exact hviews name
  | @update n hn =>
    refine ⟨Sound.runAlone hops hsound _, fun name => ?_⟩
    by_cases hname : n.key = name
    · subst hname
      have hmanaged := (hviews n.key).1 n hn
      refine tight_of_synced hmanaged (fun t ht => ?_) (synced_runAlone hops hper hsound hmanaged rfl hn)
      obtain ⟨m, hm, hdeclared⟩ := (hviews n.key).2 t ht
      rwa [Option.some.inj (hn.symm.trans hm)]
    · rw [view_runAlone hops hsound (addOrUpdate_only r n) .cluster hname]
      exact hviews name

end Runs

/-- **No reservation leaks.** The nodes of the store are synced in any order, so where two of them declare the same
subnet it goes to whichever came first. After any events, whatever failed on the way, all that is held for a name is
declared by its record, so nothing is held for a name without one; and a run for a node that then succeeds leaves
it holding exactly what its record declares, one subnet of each wanted family. -/
theorem held_declared_after (hops : ops.Faithful records) (hper : r.network.perNode = true) {s : σ}
    (hkeyed : (records s).Keyed) (hmanaged : ∀ n ∈ (records s).values, n.isUnmanaged = false) {nodes : List Node}
    (hnodes : nodes.Perm (records s).values) {w : World σ}
    (hrun : Relation.ReflTransGen (Handles r ops records) (r.launch ops nodes s) w) :
    (∀ name t, t ∈ w.cluster.allocated name →
        ∃ n, (records w.store).find? name = some n ∧ t ∈ r.declaredSubnets n) ∧
      ∀ n w', (records w.store).find? n.key = some n → (r.addOrUpdate n).runAlone ops w = (.ok (), w') →
        r.network.families.Serves (w'.cluster.allocated n.key) ∧
          ∃ m, (records w'.store).find? n.key = some m ∧
            (w'.cluster.allocated n.key).Perm (r.declaredSubnets m) := by
  have htight : w.Tight r records := by
    induction hrun with
    | refl => exact tight_launch hops hkeyed hmanaged hnodes
    | tail _ hstep ih => exact hstep.tight hops hper ih
  refine ⟨fun name t ht => (htight.views name).2 t ht, fun n w' hn hok => ?_⟩
  have hsynced := synced_runAlone hops hper htight.sound ((htight.views n.key).1 n hn) rfl hn
  have hsound := Sound.runAlone hops htight.sound (r.addOrUpdate n)
  rw [hok] at hsynced hsound
  have hheld : ∀ t ∈ w.cluster.heldBy n.key, t ∈ r.declaredSubnets n := by
    intro t ht
    obtain ⟨m, hm, hdeclared⟩ := (htight.views n.key).2 t ht
    rwa [Option.some.inj (hn.symm.trans hm)]
  obtain ⟨l, m, hserves, hm, hl, hperm⟩ := serves_of_synced hheld hsynced
  have hnodup : (w'.cluster.allocated n.key).Nodup := (hsound.pools .cluster).nodup_allocated n.key
  have hsame : (w'.cluster.allocated n.key).Perm l :=
    (List.perm_ext_iff_of_nodup hnodup hserves.1.nodup).2 hl
  exact ⟨hserves.perm hsame.symm, m, hm, hsame.trans hperm.symm⟩

/-! ## A run -/

/-- One range of two host subnets, and no overlay. -/
def sample : Reconciler :=
  ⟨.ofRanges [⟨⟨.v4, 167837696, 25, by decide, by decide⟩, 26, by decide⟩], .none, .standard⟩

def lowerSubnet : Cidr := ⟨.v4, 167837696, 26, by decide, by decide⟩

def upperSubnet : Cidr := ⟨.v4, 167837760, 26, by decide, by decide⟩

/-- A node that declares the first of them. -/
def sampleNode : Node :=
  { Node.named "b" with annotations := some (TextMap.setSubnets Network.defaultName
      [⟨.v4, 167837696, 26, by decide, by decide⟩] .empty) }

/-- A store of that node and one that declares nothing, where the first write collides. -/
def sampleStore : ScriptedStore.Refuser :=
  ⟨{ ScriptedStore.empty with
      records := Records.put sampleNode (Records.put (.named "a") .empty), writeFaults := [.conflict] }, by decide⟩

theorem sampleStore_keyed : sampleStore.1.records.Keyed := (Records.keyed_empty.put (.named "a")).put sampleNode

theorem sampleStore_managed : ∀ n ∈ sampleStore.1.records.values, n.isUnmanaged = false := by decide +kernel

def rivalNode : Node := { Node.named "a" with annotations := sampleNode.annotations }

/-- A store of both, where the first write collides. -/
def rivalStore : ScriptedStore.Refuser :=
  ⟨{ ScriptedStore.empty with
      records := Records.put sampleNode (Records.put rivalNode .empty), writeFaults := [.conflict] }, by decide⟩

theorem rivalStore_keyed : rivalStore.1.records.Keyed := (Records.keyed_empty.put rivalNode).put sampleNode

theorem rivalStore_managed : ∀ n ∈ rivalStore.1.records.values, n.isUnmanaged = false := by decide +kernel

/-- They are synced against the order of their names, so the second one has the subnet and the first one nothing. The
first one is handled then, and gets the other subnet. -/
theorem held_declared_after_update :
    let synced := sample.launch ScriptedStore.refuserOps rivalStore.1.records.values.reverse rivalStore
    let w := ((sample.addOrUpdate rivalNode).runAlone ScriptedStore.refuserOps synced).2
    synced.cluster.allocated "a" = [] ∧ synced.cluster.allocated "b" = [lowerSubnet] ∧
      w.cluster.allocated "a" = [upperSubnet] ∧
        ∀ name t, t ∈ w.cluster.allocated name →
          ∃ n, w.store.1.records.find? name = some n ∧ t ∈ sample.declaredSubnets n := by
  intro synced w
  have hfind : synced.store.1.records.find? rivalNode.key = some rivalNode := by
    unfold synced
    rw [store_launch]
    decide +kernel
  have hrun : Relation.ReflTransGen (Handles sample ScriptedStore.refuserOps fun s => s.1.records) synced w :=
    .single (.update hfind)
  refine ⟨by decide +kernel, by decide +kernel, by decide +kernel, ?_⟩
  exact (held_declared_after (r := sample) (s := rivalStore) ScriptedStore.faithful rfl rivalStore_keyed
    rivalStore_managed (List.reverse_perm _) hrun).1

end Reconciler

end HostSubnets
