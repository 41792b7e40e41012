import HostSubnets.Proofs.Pool.Room
import HostSubnets.Proofs.Reconciler.Seeding

/-!
# The launch of a reconciler

`launch` : the ranges are registered, and then known nodes synced, in some order. That leaves the store as it is
(`store_launch`), and whatever is held is declared by one of these nodes (`declared_of_mem_launch`). Only the start
registers ranges: neither a sync nor anything that is done for a name makes more subnets than there were then, or fewer
(`World.Registers`, `registers_launch`).
-/

namespace HostSubnets.Reconciler

open HostSubnets.Task

variable {σ : Type} {ops : StoreOps σ} {records : σ → Records} {r : Reconciler} {w w₀ : World σ} {which : PoolName}
  {name : String} {t : Cidr}

/-! ## Worlds with the same ranges -/

theorem World.hosts_perform (ops : StoreOps σ) (hw : ∀ which, (w.pool which).Coherent) {q : Request} (hq : q.ForName)
    (which : PoolName) (t : Cidr) : ((q.perform ops w).2.pool which).Hosts t ↔ (w.pool which).Hosts t := by
  obtain ⟨name, hq⟩ := hq
  rcases World.pool_perform ops q which w with ⟨p, rfl, hpool⟩ | hsame
  · rw [hpool]
    exact (hw which).hosts_perform hq t
  · rw [hsame]

/-- A sound world in which the same subnets can be held as in another. -/
structure World.Registers (records : σ → Records) (w w₀ : World σ) : Prop where
  sound : w.Sound records
  hosts : ∀ which t, (w.pool which).Hosts t ↔ (w₀.pool which).Hosts t

theorem World.Sound.registers (hw : w.Sound records) : w.Registers records w := ⟨hw, fun _ _ => Iff.rfl⟩

section Registers

variable (h : w.Registers records w₀)
include h

theorem World.Registers.withStore {s : σ} (hkeyed : (records s).Keyed) :
    World.Registers records { w with store := s } w₀ := by
  refine ⟨h.sound.withStore hkeyed, fun which t => ?_⟩
  rw [World.pool_withStore]
  exact h.hosts which t

theorem World.Registers.hosts_of_held (ht : t ∈ (w.pool which).allocated name) : (w₀.pool which).Hosts t :=
  (h.hosts which t).1 (Pool.hosts_of_owner? (((h.sound.pools which).mirrored name t).1 ht))

variable (hops : ops.Faithful records)
include hops

theorem World.Registers.perform {q : Request} (hq : q.ForName) : (q.perform ops w).2.Registers records w₀ :=
  ⟨h.sound.perform hops q, fun which t => (World.hosts_perform ops h.sound.pools hq which t).trans (h.hosts which t)⟩

/-- **What is done for names registers nothing.** -/
theorem World.Registers.runAny {α : Type} {program : Program α}
    (honly : program.Only Request.ForName Request.Named) : (program.runAlone ops w).2.Registers records w₀ := by
  have hstep : ∀ (q : Request) (w : World σ), q.ForName → w.Registers records w₀ →
      (q.perform ops w).2.Registers records w₀ ∧ q.Named (q.perform ops w).1 :=
    fun q _ hq hw => ⟨hw.perform hops hq, hw.sound.named_perform hops q⟩
  exact honly.run hstep h

theorem World.Registers.runAlone {α : Type} {program : Program α}
    (honly : program.Only (Request.IsBy name) Request.Named) : (program.runAlone ops w).2.Registers records w₀ :=
  h.runAny hops (honly.mono fun _ hq => hq.forName)

end Registers

/-! ## The first reservations -/

/-- The world once the ranges are registered and these nodes synced. -/
def launch (r : Reconciler) (ops : StoreOps σ) (nodes : List Node) (s : σ) : World σ :=
  ((r.sync nodes).runAlone ops (r.start.runAlone ops (World.start s)).2).2

section Launch

variable {s : σ} {nodes : List Node}

theorem store_launch (r : Reconciler) (ops : StoreOps σ) (nodes : List Node) (s : σ) :
    (r.launch ops nodes s).store = s := by
  have hfresh := fresh_runAlone_start ops r s
  unfold launch
  cases hper : r.network.perNode with
  | true => exact ((sync_runAlone r hper nodes _).2).trans hfresh.store
  | false =>
    unfold sync
    rw [hper]
    exact hfresh.store

theorem declared_of_mem_launch (ht : t ∈ ((r.launch ops nodes s).pool which).allocated name) :
    r.network.perNode = true ∧ ∃ n ∈ nodes, n.key = name ∧ t ∈ r.seedsIn n which := by
  have hfresh := fresh_runAlone_start ops r s
  cases hper : r.network.perNode with
  | true => exact ⟨rfl, hfresh.declared_of_mem_sync r hper nodes ht⟩
  | false =>
    have hsync : r.sync nodes = pure () := by
      unfold sync
      rw [hper]
      rfl
    unfold launch at ht
    rw [hsync] at ht
    exact absurd ht (Set.eq_empty_iff_forall_notMem.1 (hfresh.held which name) t)

theorem sound_start (hkeyed : (records s).Keyed) : (r.start.runAlone ops (World.start s)).2.Sound records := by
  have hfresh := fresh_runAlone_start ops r s
  refine ⟨hfresh.pools, ?_⟩
  rw [hfresh.store]
  exact hkeyed

/-- The subnets are those of a start, beside whatever store. -/
theorem registers_launch (hops : ops.Faithful records) {s₀ : σ} (hkeyed : (records s).Keyed) (nodes : List Node) :
    (r.launch ops nodes s).Registers records (r.start.runAlone ops (World.start s₀)).2 := by
  have hstart : (r.start.runAlone ops (World.start s)).2.Sound records := sound_start hkeyed
  have hown : (r.launch ops nodes s).Registers records _ := hstart.registers.runAny hops (sync_only r nodes)
  refine ⟨hown.sound, fun which t => (hown.hosts which t).trans ?_⟩
  rw [(start_agrees r ops ops s s₀).2 which]

theorem sound_launch (hops : ops.Faithful records) (hkeyed : (records s).Keyed) :
    (r.launch ops nodes s).Sound records :=
  Sound.runAlone hops (sound_start hkeyed) _

end Launch

end HostSubnets.Reconciler
