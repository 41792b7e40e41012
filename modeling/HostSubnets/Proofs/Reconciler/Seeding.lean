import HostSubnets.Proofs.Reconciler.Frame

/-!
# A reconciler before its first event

`start` registers ranges and reserves nothing (`fresh_runAlone_start`). `sync` then reserves what nodes declare, first
come, first served: `owner?_seeded` says who holds a subnet after any list of reservations, so whatever is held is
declared by the node that holds it (`declared_of_mem_sync`), and where no two nodes declare the same subnet every
node holds what it declares of the registered ranges (`mem_sync_of_declared`). Neither depends on the store
(`start_agrees`).
-/

namespace HostSubnets

open HostSubnets.Task

/-! ## Reservations in turn -/

namespace Pool

theorem heldBy_empty (o : String) : empty.heldBy o = ∅ := by
  ext s
  simp [heldBy, allocated, empty]

/-- Lists of subnets reserved for one owner after the other. -/
def seeded (p : Pool) (entries : List (String × List Cidr)) : Pool :=
  entries.foldl (fun p e => (p.mark e.1 e.2).2) p

theorem Coherent.seeded {p : Pool} (h : Coherent p) (entries : List (String × List Cidr)) :
    Coherent (p.seeded entries) := by
  unfold Pool.seeded
  induction entries generalizing p with
  | nil => exact h
  | cons e rest ih => exact ih (h.mark e.1 e.2)

/-- A free subnet goes to the first owner that lists it; others stay with their owners. -/
theorem owner?_seeded (p : Pool) (entries : List (String × List Cidr)) (s : Cidr) :
    (p.seeded entries).owner? s =
      if p.Hosts s then (p.owner? s).or ((entries.find? fun e => s ∈ e.2).map Prod.fst) else p.owner? s := by
  unfold seeded
  induction entries generalizing p with
  | nil => simp
  | cons e rest ih =>
    rw [List.foldl_cons, ih, owner?_mark]
    simp only [hosts_mark]
    by_cases hs : p.Hosts s
    · cases hown : p.owner? s with
      | some o => simp [hs]
      | none =>
        by_cases he : s ∈ e.2
        · simp [hs, he]
        · simp [hs, he]
    · simp [hs]

end Pool

/-! ## Start -/

namespace Reconciler

variable {σ : Type} {ops : StoreOps σ} {records : σ → Records} (r : Reconciler)

def Request.Prepares : Request → Prop
  | .pool _ (.addRange ..) => True
  | .pool _ .count => True
  | .recordCapacity _ => True
  | _ => False

theorem start_only {p : Request → Prop}
    (hregister : ∀ which, ∀ range ∈ r.ranges which, p (.pool which (.addRange range.network range.hostLength)))
    (hcount : p (.pool .cluster .count)) (hrecord : ∀ figures, p (.recordCapacity figures)) :
    r.start.Only p fun _ _ => True := by
  have hall : ∀ which (l : List SubnetRange),
      (∀ range ∈ l, p (.pool which (.addRange range.network range.hostLength))) →
        (register which l).Only p fun _ _ => True := by
    intro which l hl
    induction l with
    | nil => exact only_pure _
    | cons range rest ih =>
      refine only_ask (hl range List.mem_cons_self) fun reply _ => ?_
      cases reply with
      | error e => exact only_pure _
      | ok _ => exact ih fun range' hrange => hl range' (List.mem_cons_of_mem _ hrange)
  unfold start
  split
  · exact only_pure _
  · refine only_bind (hall .cluster _ (hregister .cluster)) fun result => ?_
    cases result with
    | error e => exact only_pure _
    | ok _ =>
      refine only_bind (hall .overlay _ (hregister .overlay)) fun result => ?_
      cases result with
      | error e => exact only_pure _
      | ok _ => exact only_bind (recordCapacity_only r hcount hrecord) fun _ => only_pure _

theorem start_prepares : r.start.Only Request.Prepares fun _ _ => True :=
  start_only r (fun _ _ _ => trivial) trivial fun _ => trivial

/-- Nothing is reserved, and the store is untouched. -/
structure World.Fresh (s : σ) (w : World σ) : Prop where
  pools : ∀ which, (w.pool which).Coherent
  held : ∀ which o, (w.pool which).heldBy o = ∅
  store : w.store = s

theorem fresh_start (s : σ) : (World.start s).Fresh s where
  pools := fun which => by cases which <;> exact Pool.coherent_empty
  held := fun which o => by cases which <;> exact Pool.heldBy_empty o
  store := rfl

theorem World.Fresh.perform {s : σ} {w : World σ} (hw : w.Fresh s) {q : Request} (hq : q.Prepares) :
    (q.perform ops w).2.Fresh s := by
  cases q with
  | pool which q =>
    have hheld : ∀ o, (q.perform (w.pool which)).2.heldBy o = ∅ := by
      intro o
      cases q with
      | addRange network hostLength => exact (Pool.heldBy_addRange o network hostLength _).trans (hw.held which o)
      | count => exact hw.held which o
      | _ => exact hq.elim
    refine ⟨fun x => ?_, fun x o => ?_, (World.store_setPool which _ w).trans hw.store⟩
    · show ((w.setPool which (q.perform (w.pool which)).2).pool x).Coherent
      rw [World.pool_setPool]
      split
      · exact (hw.pools which).perform q
      · exact hw.pools x
    · show ((w.setPool which (q.perform (w.pool which)).2).pool x).heldBy o = ∅
      rw [World.pool_setPool]
      split
      · exact hheld o
      · exact hw.held x o
  | recordCapacity figures =>
    refine ⟨fun x => ?_, fun x o => ?_, hw.store⟩
    · have hp := hw.pools x
      cases x <;> exact hp
    · have hp := hw.held x o
      cases x <;> exact hp
  | _ => exact hq.elim

variable (ops) in
/-- **Starting reserves nothing**, whether it succeeds or fails. -/
theorem fresh_runAlone_start (s : σ) : (r.start.runAlone ops (World.start s)).2.Fresh s :=
  (start_prepares r).run (fun _ _ hq hw => ⟨hw.perform hq, trivial⟩) (fresh_start s)

def World.Pooled {τ : Type} (w : World σ) (w' : World τ) : Prop := ∀ which, w.pool which = w'.pool which

/-- Starts beside different stores end alike, with the same pools. -/
theorem start_agrees {τ : Type} (ops : StoreOps σ) (ops' : StoreOps τ) (s : σ) (s' : τ) :
    (r.start.runAlone ops (World.start s)).1 = (r.start.runAlone ops' (World.start s')).1 ∧
      (r.start.runAlone ops (World.start s)).2.Pooled (r.start.runAlone ops' (World.start s')).2 := by
  have hstep : ∀ (q : Request) (w : World σ) (w' : World τ), q.Prepares → w.Pooled w' →
      (q.perform ops w).1 = (q.perform ops' w').1 ∧ (q.perform ops w).2.Pooled (q.perform ops' w').2 := by
    intro q w w' hq hsame
    cases q with
    | pool x q =>
      refine ⟨?_, fun which => ?_⟩
      · show (q.perform (w.pool x)).1 = (q.perform (w'.pool x)).1
        rw [hsame x]
      · show (w.setPool x _).pool which = (w'.setPool x _).pool which
        rw [World.pool_setPool, World.pool_setPool, hsame x, hsame which]
    | recordCapacity figures =>
      refine ⟨rfl, fun which => ?_⟩
      have h := hsame which
      cases which <;> exact h
    | _ => exact hq.elim
  exact (start_prepares r).run_agrees hstep fun which => by cases which <;> rfl

def uses : PoolName → Bool
  | .cluster => r.network.perNode
  | .overlay => r.hasOverlay

variable (ops) in
theorem not_hosts_start {which : PoolName} (hunused : r.uses which = false) (s : σ) (t : Cidr) :
    ¬ ((r.start.runAlone ops (World.start s)).2.pool which).Hosts t := by
  have hranges : r.ranges which = [] := by cases which <;> exact if_neg (ne_true_of_eq_false hunused)
  have hspares : r.start.Only (Request.Spares which) fun _ _ => True := by
    refine start_only r (fun x range hrange => Or.inl ?_) (Or.inr trivial) fun _ => trivial
    rintro rfl
    rw [hranges] at hrange
    cases hrange
  have hbefore : (World.start s).pool which = .empty := by cases which <;> rfl
  rw [pool_runAlone_of_spares hspares, hbefore]
  exact Bool.false_ne_true

/-! ## Reservations of known nodes -/

/-- What a node gets reserved in the cluster pool. -/
def seeds (n : Node) : List Cidr := if n.isUnmanaged then [] else r.declaredSubnets n

/-- What a node gets reserved in each pool. -/
def seedsIn (n : Node) : PoolName → List Cidr
  | .cluster => r.seeds n
  | .overlay => if n.isUnmanaged && r.servesInOverlay n then declaredOverlay n else []

variable (ops) in
theorem seed_world (n : Node) (w : World σ) :
    ((r.seed n).runAlone ops w).2 =
      { w with cluster := (w.cluster.mark n.key (r.seedsIn n .cluster)).2,
               overlay := (w.overlay.mark n.key (r.seedsIn n .overlay)).2 } := by
  unfold seed seedsIn seeds declaredSubnets declaredOverlay
  cases hn : n.isUnmanaged with
  | true =>
    cases hserved : r.servesInOverlay n with
    | true =>
      rw [if_pos rfl, if_pos rfl]
      split <;> rfl
    | false => rfl
  | false =>
    rw [if_neg Bool.false_ne_true]
    split <;> rfl

theorem runAlone_bind {α β : Type} (task : Program α) (f : α → Program β) (w : World σ) :
    Program.runAlone ops (task >>= f) w =
      (f (task.runAlone ops w).1).runAlone ops (task.runAlone ops w).2 :=
  run_seq (Request.perform ops) task f w

variable (ops) in
theorem seedAll_world (nodes : List Node) (w : World σ) :
    ((r.seedAll nodes).runAlone ops w).2 =
      { w with cluster := w.cluster.seeded (nodes.map fun n => (n.key, r.seedsIn n .cluster)),
               overlay := w.overlay.seeded (nodes.map fun n => (n.key, r.seedsIn n .overlay)) } := by
  induction nodes generalizing w with
  | nil => rfl
  | cons n rest ih =>
    have hrun : (r.seedAll (n :: rest)).runAlone ops w =
        (r.seedAll rest).runAlone ops ((r.seed n).runAlone ops w).2 := runAlone_bind _ _ w
    rw [hrun, ih, seed_world]
    rfl

theorem recordAllocated_world (w : World σ) :
    (r.recordAllocated.runAlone ops w).2 =
      if r.network.secondary then w else { w with gauges := w.gauges.recordAllocated w.cluster.usage } := by
  unfold recordAllocated
  split <;> rfl

theorem sync_eq (hper : r.network.perNode = true) (nodes : List Node) (w : World σ) :
    (r.sync nodes).runAlone ops w = r.recordAllocated.runAlone ops ((r.seedAll nodes).runAlone ops w).2 := by
  unfold sync
  rw [if_pos hper]
  exact runAlone_bind _ _ w

theorem sync_runAlone (hper : r.network.perNode = true) (nodes : List Node) (w : World σ) :
    (∀ which, ((r.sync nodes).runAlone ops w).2.pool which =
        (w.pool which).seeded (nodes.map fun n => (n.key, r.seedsIn n which))) ∧
      ((r.sync nodes).runAlone ops w).2.store = w.store := by
  rw [sync_eq r hper, recordAllocated_world, seedAll_world]
  split
  · exact ⟨fun which => by cases which <;> rfl, rfl⟩
  · exact ⟨fun which => by cases which <;> rfl, rfl⟩

theorem sync_only (nodes : List Node) : (r.sync nodes).Only Request.ForName Request.Named := by
  have hseed : ∀ n, (r.seed n).Only (Request.IsBy n.key) Request.Named := by
    intro n
    unfold seed
    split
    · split
      · split
        · exact only_ask rfl fun _ _ => only_pure _
        · exact only_pure _
      · exact only_pure _
    · split
      · exact only_ask rfl fun _ _ => only_pure _
      · exact only_pure _
  have hall : (r.seedAll nodes).Only Request.ForName Request.Named := by
    induction nodes with
    | nil => exact only_pure _
    | cons n rest ih => exact only_bind ((hseed n).mono fun _ hq => hq.forName) fun _ => ih
  unfold sync
  split
  · refine only_bind hall fun _ => ?_
    unfold recordAllocated
    split
    · exact only_pure _
    · exact only_ask ⟨"", trivial⟩ fun _ _ => only_perform ⟨"", trivial⟩
  · exact only_pure _

section Sync

variable {s : σ} {w : World σ} (hw : w.Fresh s) (hper : r.network.perNode = true) (nodes : List Node)
include hw hper

theorem World.Fresh.owner?_sync (which : PoolName) (t : Cidr) :
    (((r.sync nodes).runAlone ops w).2.pool which).owner? t =
      if (w.pool which).Hosts t then ((nodes.find? fun n => t ∈ r.seedsIn n which)).map Node.key else none := by
  have hfree : (w.pool which).owner? t = none := by
    cases ho : (w.pool which).owner? t with
    | none => rfl
    | some o =>
      have hmem : t ∈ (w.pool which).heldBy o := ((hw.pools which).mem_heldBy_iff o t).2 ho
      rw [hw.held which o] at hmem
      exact hmem.elim
  rw [(sync_runAlone r hper nodes w).1, Pool.owner?_seeded, hfree, Option.none_or, List.find?_map, Option.map_map]
  rfl

theorem World.Fresh.coherent_sync (which : PoolName) :
    (((r.sync nodes).runAlone ops w).2.pool which).Coherent := by
  rw [(sync_runAlone r hper nodes w).1]
  exact (hw.pools which).seeded _

theorem World.Fresh.declared_of_mem_sync {which : PoolName} {o : String} {t : Cidr}
    (ht : t ∈ (((r.sync nodes).runAlone ops w).2.pool which).heldBy o) :
    ∃ n ∈ nodes, n.key = o ∧ t ∈ r.seedsIn n which := by
  rw [(hw.coherent_sync r hper nodes which).mem_heldBy_iff, hw.owner?_sync r hper nodes which t] at ht
  split at ht
  · obtain ⟨n, hn, hkey⟩ := Option.map_eq_some_iff.1 ht
    refine ⟨n, List.mem_of_find?_eq_some hn, hkey, ?_⟩
    simpa using List.find?_some hn
  · cases ht

/-- A node holds the registered subnets that no node before it declares. -/
theorem World.Fresh.mem_sync_of_first {which : PoolName} {n : Node} {t : Cidr} (hhosts : (w.pool which).Hosts t)
    (hfirst : (nodes.find? fun m => t ∈ r.seedsIn m which).map Node.key = some n.key) :
    t ∈ (((r.sync nodes).runAlone ops w).2.pool which).heldBy n.key := by
  rw [(hw.coherent_sync r hper nodes which).mem_heldBy_iff, hw.owner?_sync r hper nodes which t, if_pos hhosts]
  exact hfirst

theorem World.Fresh.mem_sync_of_declared {which : PoolName}
    (hapart : ∀ m ∈ nodes, ∀ n ∈ nodes, ∀ t ∈ r.seedsIn m which, t ∈ r.seedsIn n which → m.key = n.key) {n : Node}
    (hn : n ∈ nodes) {t : Cidr} (ht : t ∈ r.seedsIn n which) (hhosts : (w.pool which).Hosts t) :
    t ∈ (((r.sync nodes).runAlone ops w).2.pool which).heldBy n.key := by
  apply hw.mem_sync_of_first r hper nodes hhosts
  cases hfind : nodes.find? fun n => t ∈ r.seedsIn n which with
  | none => exact absurd ht (by simpa using List.find?_eq_none.1 hfind n hn)
  | some m =>
    have hm : t ∈ r.seedsIn m which := by simpa using List.find?_some hfind
    rw [Option.map_some, hapart m (List.mem_of_find?_eq_some hfind) n hn t hm ht]

end Sync

end Reconciler

end HostSubnets
