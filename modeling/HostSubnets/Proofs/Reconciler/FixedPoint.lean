import HostSubnets.Proofs.Reconciler.Stability

/-!
# A node at rest

`Supplied` : the record of a node declares the id of the network and, in its pool, one subnet of each family, all
reserved for the node. A run that succeeds from the current record leaves the node so (`supplied_of_ok`), and a run for
such a node changes nothing (`Supplied.idles`): both pools and the store stay as they are, and no write is tried
(`Program.Idles`). So one run is enough (`rests_after_success`).
-/

namespace HostSubnets

open HostSubnets.Task

theorem Network.of_problem?_eq_none {network : Network} (h : network.problem? = none) :
    network.id ≠ Network.reservedId ∧ (network.perNode = true → network.families.isEmpty = false) := by
  unfold problem? at h
  split at h
  · cases h
  · split at h
    · cases h
    · rename_i hid
      refine ⟨hid, fun hper => ?_⟩
      rw [hper] at h
      simpa using h

theorem Families.exists_wants {families : Families} (h : families.isEmpty = false) : ∃ f, families.wants f = true := by
  cases hv4 : families.v4 with
  | true => exact ⟨.v4, hv4⟩
  | false =>
    refine ⟨.v6, ?_⟩
    unfold isEmpty at h
    rw [hv4] at h
    simpa [wants] using h

namespace Reconciler

variable {σ : Type} {ops : StoreOps σ} {records : σ → Records} {r : Reconciler} {n c m : Node} {d : Demand}
  {w : World σ}

/-! ## Runs that change nothing -/

/-- A run ends with a value, leaves both pools and the store as they are, and tries no write on the way. -/
structure Program.Idles {α : Type} (ops : StoreOps σ) (program : Program α) (value : α) (w : World σ) : Prop where
  result : (program.runAlone ops w).1 = value
  pools : ∀ which, (program.runAlone ops w).2.pool which = w.pool which
  store : (program.runAlone ops w).2.store = w.store
  writes : ∀ m, Request.write m ∉ Task.requests (Request.perform ops) program w

section Idle

variable {α β : Type} {a : α} {b : β}

theorem idles_pure (value : α) (w : World σ) : Program.Idles ops (pure value) value w where
  result := rfl
  pools := fun _ => rfl
  store := rfl
  writes := fun _ hwrite => by cases hwrite

theorem Program.Idles.bind {program : Program α} {f : α → Program β} (h : program.Idles ops a w)
    (hf : (f a).Idles ops b (program.runAlone ops w).2) : Program.Idles ops (program >>= f) b w := by
  have hvalue := h.result
  subst hvalue
  constructor
  · rw [runAlone_bind, hf.result]
  · intro which
    rw [runAlone_bind, hf.pools, h.pools]
  · rw [runAlone_bind, hf.store, h.store]
  · intro m hwrite
    rw [requests_bind, List.mem_append] at hwrite
    cases hwrite with
    | inl hfirst => exact h.writes m hfirst
    | inr hsecond => exact hf.writes m hsecond

theorem idles_onPool {which : PoolName} {program : Pool.Program α}
    (h : program.runAlone (w.pool which) = (a, w.pool which)) : (onPool which program).Idles ops a w := by
  have hsame : (onPool which program).runAlone ops w = (a, w) := by
    rw [runAlone_onPool, h, setPool_pool]
  have honly : (onPool which program).Only (fun q => ∃ p, q = .pool which p) fun _ _ => True := by
    clear h hsame
    induction program with
    | done value => exact trivial
    | ask q next ih => exact ⟨⟨q, rfl⟩, fun reply _ => ih reply⟩
  constructor
  · rw [hsame]
  · intro x
    rw [hsame]
  · rw [hsame]
  · intro m hwrite
    obtain ⟨p, hp⟩ := honly.requests w _ hwrite
    cases hp

theorem idles_askPool {which : PoolName} {q : Pool.Request} (hq : q.Reads) (w : World σ) :
    (askPool which q).Idles ops (q.perform (w.pool which)).1 w := by
  have h : Pool.Program.runAlone (Task.perform q) (w.pool which) = ((q.perform (w.pool which)).1, w.pool which) :=
    Prod.ext rfl (hq.perform _)
  exact idles_onPool h

theorem idles_recordCapacity (r : Reconciler) (w : World σ) : r.recordCapacity.Idles ops () w := by
  unfold recordCapacity
  split
  · exact idles_pure () w
  · refine (idles_askPool (q := .count) trivial w).bind ⟨rfl, fun which => ?_, rfl, fun m hwrite => ?_⟩
    · exact World.pool_figures which w _ _
    · cases List.mem_singleton.1 hwrite

theorem idles_thenRecord (r : Reconciler) (result : Except ControlError Unit) (w : World σ) :
    (r.thenRecord result).Idles ops result w := by
  cases result with
  | error e => exact idles_pure _ w
  | ok _ => exact (idles_recordCapacity r w).bind (idles_pure _ _)

end Idle

/-! ## Nodes that have what they declare -/

/-- The record of a node declares what it is to have, and the node has it. -/
structure Supplied (r : Reconciler) (n : Node) (w : World σ) : Prop where
  id : n.isUnmanaged = false → r.declaredId n = some r.network.id
  serves : ∀ d, r.demand? n = some d → d.families.Serves d.existing
  held : ∀ d, r.demand? n = some d → ∀ t ∈ d.existing, t ∈ (w.pool d.pool).allocated n.key

theorem wants_of_demand? (hproblem : r.network.problem? = none) (hd : r.demand? n = some d) :
    ∃ f, d.families.wants f = true := by
  rcases demand?_cases hd with ⟨-, hper, rfl⟩ | ⟨-, -, rfl⟩
  · exact Families.exists_wants ((Network.of_problem?_eq_none hproblem).2 hper)
  · exact ⟨.v4, rfl⟩

theorem Supplied.confirms (h : r.Supplied n w) (hd : r.demand? n = some d) : r.Confirms n ⟨d.existing, []⟩ := by
  have hserves := h.serves d hd
  have hid := h.id
  unfold Confirms
  rw [← pool_of_demand? hd]
  rcases demand?_cases hd with ⟨hn, -, rfl⟩ | ⟨-, -, rfl⟩
  · exact ⟨(differs_eq_false_iff hserves.1.nodup).2 (List.Perm.refl _), hid hn⟩
  · exact ⟨rfl, rfl⟩

/-- **A run for a node that has what it declares changes nothing**, and succeeds. -/
theorem Supplied.idles (h : r.Supplied n w) (hw : ∀ which, (w.pool which).Coherent)
    (hproblem : r.network.problem? = none) : (r.addOrUpdate n).Idles ops (.ok ()) w := by
  cases hd : r.demand? n with
  | none =>
    rcases demand?_none_cases hd with ⟨hn, hper⟩ | ⟨hn, hserved⟩
    · have hconclude : ∀ held, r.conclude n held none = pure (.ok ()) := by
        intro held
        unfold conclude
        rw [h.id hn, if_pos (by simp), if_neg (by simp)]
        rfl
      rw [addOrUpdate_managed hn, syncManaged_shared hper]
      refine ((idles_askPool (q := .allocated n.key) trivial w).bind ?_).bind (idles_thenRecord r _ _)
      rw [hconclude]
      exact idles_pure _ _
    · rw [addOrUpdate_skipped hn hserved]
      exact idles_thenRecord r _ w
  | some d =>
    have hserves := h.serves d hd
    have hcoherent := hw d.pool
    have hheld : (w.pool d.pool).allocated n.key ≠ [] := by
      obtain ⟨f, hf⟩ := wants_of_demand? hproblem hd
      obtain ⟨t, ht, -⟩ := hserves.2 f hf
      exact List.ne_nil_of_mem (h.held d hd t ht)
    have hown : ∀ t ∈ d.existing, (w.pool d.pool).owner? t = some n.key := fun t ht =>
      (hcoherent.mirrored n.key t).1 (h.held d hd t ht)
    have hfinish : r.finish n ((w.pool d.pool).allocated n.key) ⟨d.existing, []⟩ = pure (.ok ()) :=
      finish_of_confirms hd hheld hserves (h.confirms hd)
    have hlook : (askPool d.pool (.allocated n.key)).Idles ops ((w.pool d.pool).allocated n.key) w :=
      idles_askPool (q := .allocated n.key) trivial w
    rw [addOrUpdate_eq hd]
    refine (hlook.bind ?_).bind (idles_thenRecord r _ _)
    -- nothing was changed by the look, so the subnets are still held
    have hpool := hlook.pools d.pool
    generalize ((askPool d.pool (.allocated n.key)).runAlone ops w).2 = w' at hpool ⊢
    unfold afterLook
    refine (idles_onPool (a := .ok ⟨d.existing, []⟩) ?_).bind ?_
    · rw [hpool]
      exact Pool.reconcile_owned hserves hown
    · dsimp only
      rw [hfinish]
      exact idles_pure _ _

/-! ## Records that were written -/

def Rewritten (n m : Node) : Prop := ∃ version annotations, m = { n with version, annotations }

theorem Rewritten.refl (n : Node) : Rewritten n n := ⟨n.version, n.annotations, rfl⟩

theorem Written.rewritten {change : TextMap → TextMap} (h : Written change n m) : Rewritten n m := by
  obtain ⟨version, rfl⟩ := h
  exact ⟨version, _, rfl⟩

theorem Rewritten.key (h : Rewritten n m) : m.key = n.key := by
  obtain ⟨version, annotations, rfl⟩ := h
  rfl

theorem Rewritten.isUnmanaged (h : Rewritten n m) : m.isUnmanaged = n.isUnmanaged := by
  obtain ⟨version, annotations, rfl⟩ := h
  rfl

theorem Rewritten.servesInOverlay (h : Rewritten n m) : r.servesInOverlay m = r.servesInOverlay n := by
  obtain ⟨version, annotations, rfl⟩ := h
  rfl

theorem Rewritten.isSome_demand? (h : Rewritten n m) : (r.demand? m).isSome = (r.demand? n).isSome := by
  unfold demand?
  rw [h.isUnmanaged, h.servesInOverlay]
  split
  · split <;> rfl
  · split <;> rfl

theorem declaredId_written {subnets : Option (List Cidr)} (hid : Network.IsId r.network.id)
    (hreserved : r.network.id ≠ Network.reservedId) (h : Written (r.declare subnets) n m) :
    r.declaredId m = some r.network.id := by
  obtain ⟨version, rfl⟩ := h
  have hread : ∀ c : Node, (c.changeAnnotations (TextMap.setNetworkId r.network.name r.network.id)).networkId?
      r.network.name = .ok (some r.network.id) := by
    intro c
    rw [Node.networkId?_setNetworkId r.network.name hid, if_neg hreserved]
  have hdeclared : Node.networkId? r.network.name { n.changeAnnotations (r.declare subnets) with version } =
      .ok (some r.network.id) := by
    cases subnets with
    | none => exact hread n
    | some l => exact hread (n.changeAnnotations (TextMap.setSubnets r.network.name l))
  unfold declaredId
  rw [hdeclared]

theorem declaredOverlay_written {t : Cidr} {rest : List Cidr} (h : Written (r.entry .overlay (t :: rest)) n m) :
    declaredOverlay m = [t] := by
  obtain ⟨version, rfl⟩ := h
  have hread : Node.overlaySubnet? { n.changeAnnotations (r.entry .overlay (t :: rest)) with version } =
      .ok (some t) := Node.overlaySubnet?_setOverlaySubnet t n
  unfold declaredOverlay
  rw [hread]

theorem demand?_written {l : List Cidr} (hd : r.demand? n = some d) (hserves : d.families.Serves l)
    (hm : Written (r.entry d.pool l) n m) : r.demand? m = some { d with existing := l } := by
  have hlabels := hm.rewritten
  rcases demand?_cases hd with ⟨hn, hper, rfl⟩ | ⟨hn, hserved, rfl⟩
  · have hsubnets : r.declaredSubnets m = l := declaredSubnets_written hm
    rw [demand?_managed (hlabels.isUnmanaged.trans hn) hper, hsubnets]
  · obtain ⟨t, rfl⟩ := hserves.eq_singleton
    rw [demand?_overlay (hlabels.isUnmanaged.trans hn) (hlabels.servesInOverlay.trans hserved),
      declaredOverlay_written hm]

theorem supplied_of_demand (hid : n.isUnmanaged = false → r.declaredId n = some r.network.id)
    (hd : r.demand? n = some d) (hserves : d.families.Serves d.existing)
    (hheld : ∀ t ∈ d.existing, t ∈ (w.pool d.pool).allocated n.key) : r.Supplied n w := by
  refine ⟨hid, fun d' hd' => ?_, fun d' hd' => ?_⟩
  · obtain rfl := Option.some.inj (hd.symm.trans hd')
    exact hserves
  · obtain rfl := Option.some.inj (hd.symm.trans hd')
    exact hheld

theorem supplied_of_none (hid : n.isUnmanaged = false → r.declaredId n = some r.network.id) (hd : r.demand? n = none) :
    r.Supplied n w := by
  refine ⟨hid, fun d hd' => ?_, fun d hd' => ?_⟩
  · cases hd.symm.trans hd'
  · cases hd.symm.trans hd'

/-- **A run from the current record that succeeds leaves the node with what its record declares.** -/
theorem supplied_of_ok (hops : ops.Faithful records) (hid : Network.IsId r.network.id)
    (hproblem : r.network.problem? = none) (hw : w.Sound records) (hn : (records w.store).find? n.key = some n)
    {w' : World σ} (hrun : (r.addOrUpdate n).runAlone ops w = (.ok (), w')) :
    ∃ m, (records w'.store).find? n.key = some m ∧ Rewritten n m ∧ r.Supplied m w' := by
  have hreserved := (Network.of_problem?_eq_none hproblem).1
  cases hd : r.demand? n with
  | none =>
    have hend := record_of_undemanded hops hw hn hd
    rw [hrun] at hend
    rcases hend with ⟨hrecord, hdeclared⟩ | ⟨m, hrecord, hm⟩
    · exact ⟨n, hrecord, Rewritten.refl n, supplied_of_none (hdeclared rfl) hd⟩
    · have hnone : r.demand? m = none := by
        rw [← Option.not_isSome_iff_eq_none, hm.rewritten.isSome_demand?, Option.not_isSome_iff_eq_none]
        exact hd
      exact ⟨m, hrecord, hm.rewritten, supplied_of_none (fun _ => declaredId_written hid hreserved hm) hnone⟩
  | some d =>
    have hout := addOrUpdate_outcome hops hw hd hn
    rw [hrun] at hout
    dsimp only at hout
    -- everything that was settled is held at the end
    have hheld : ∀ {a : Pool.Assignment}, (w.pool d.pool).Settles n.key d.families d.existing a →
        (w'.pool d.pool).heldBy n.key =
          {s | s ∈ (w.pool d.pool).remains n.key d.families d.existing ∨ s ∈ a.allocated} →
          ∀ t ∈ a.subnets, t ∈ (w'.pool d.pool).allocated n.key := by
      intro a ha hset t ht
      apply (Set.ext_iff.1 hset t).2
      cases (ha.mem_subnets t).1 ht with
      | inl hretains => exact Or.inl (Or.inr hretains)
      | inr hnew => exact Or.inr hnew
    generalize hv : w'.view records d.pool n.key = v at hout
    cases hout with
    | @confirmed a _ ha hsame =>
      have hperm := perm_of_confirms hd ha.toFits hsame
      have hdeclaredId := ((confirms_iff hd ha.toFits).1 hsame).2.2.2
      have hcluster : n.isUnmanaged = false → d.pool = .cluster := by
        intro hmanaged
        rw [pool_of_demand? hd, poolFor, hmanaged, if_neg Bool.false_ne_true]
      refine ⟨n, congrArg View.record hv, Rewritten.refl n, supplied_of_demand ?_ hd (ha.serves.perm hperm) ?_⟩
      · exact fun hmanaged => hdeclaredId (hcluster hmanaged)
      · exact fun t ht => hheld ha (congrArg View.held hv) t (hperm.mem_iff.2 ht)
    | @written a m _ ha _ hm =>
      have hdm := demand?_written hd ha.serves hm
      refine ⟨m, congrArg View.record hv, hm.rewritten, supplied_of_demand ?_ hdm ha.serves ?_⟩
      · intro hmanaged
        rcases demand?_cases hd with ⟨-, -, rfl⟩ | ⟨hunmanaged, -, rfl⟩
        · have hdeclared : Written (r.declare (some a.subnets)) n m := hm
          exact declaredId_written hid hreserved hdeclared
        · rw [hm.rewritten.isUnmanaged, hunmanaged] at hmanaged
          cases hmanaged
      · rw [hm.rewritten.key]
        exact hheld ha (congrArg View.held hv)

/-! ## One run is enough -/

theorem problem?_of_start (h : (r.start.runAlone ops w).1 = .ok ()) : r.network.problem? = none := by
  cases hproblem : r.network.problem? with
  | none => rfl
  | some problem =>
    unfold start at h
    rw [hproblem] at h
    cases h

theorem networkId?_of_declaredId {id : Int} (h : r.declaredId n = some id) :
    n.networkId? r.network.name = .ok (some id) := by
  unfold declaredId at h
  split at h
  · rename_i found heq
    rw [heq, h]
  · cases h

theorem subnets?_of_declaredSubnets (h : r.declaredSubnets n ≠ []) :
    n.subnets? r.network.name = .ok (some (r.declaredSubnets n)) := by
  unfold declaredSubnets at h ⊢
  split at h
  · assumption
  · exact absurd rfl h

theorem overlaySubnet?_of_declaredOverlay {t : Cidr} (h : declaredOverlay n = [t]) : n.overlaySubnet? = .ok (some t) := by
  unfold declaredOverlay at h
  split at h
  · rename_i found heq
    rw [heq, (List.cons.inj h).1]
  · cases h

/-- **One run that succeeds is enough.** The pools are as any operations left them after the start. If the run for the
current record of a node succeeds, the record of a managed node then declares the id of the network and, where nodes
have subnets of their own, one registered subnet of each family, all reserved for it; that of a member of the overlay
declares one IPv4 subnet reserved for it there. A second run from the record then changes nothing. -/
theorem rests_after_success (hops : ops.Faithful records) (hid : Network.IsId r.network.id) {s : σ}
    (hstart : (r.start.runAlone ops (World.start s)).1 = .ok ())
    (hreached : ∀ which, ∃ requests,
      w.pool which = ((r.start.runAlone ops (World.start s)).2.pool which).after requests)
    (hkeyed : (records w.store).Keyed) (hn : (records w.store).find? n.key = some n) {w' : World σ}
    (hrun : (r.addOrUpdate n).runAlone ops w = (.ok (), w')) :
    ∃ m, (records w'.store).find? n.key = some m ∧
      (n.isUnmanaged = false → m.networkId? r.network.name = .ok (some r.network.id) ∧
        (r.network.perNode = true → ∃ l, m.subnets? r.network.name = .ok (some l) ∧ r.network.families.Serves l ∧
          ∀ t ∈ l, w'.cluster.Hosts t ∧ t ∈ w'.cluster.allocated n.key)) ∧
      (n.isUnmanaged = true → r.servesInOverlay n = true → ∃ t, m.overlaySubnet? = .ok (some t) ∧ t.family = .v4 ∧
        w'.overlay.Hosts t ∧ t ∈ w'.overlay.allocated n.key) ∧
      (r.addOrUpdate m).Idles ops (.ok ()) w' := by
  have hproblem := problem?_of_start hstart
  have hsound : w.Sound records := by
    refine ⟨fun which => ?_, hkeyed⟩
    obtain ⟨requests, hpool⟩ := hreached which
    rw [hpool]
    exact ((fresh_runAlone_start ops r s).pools which).after requests
  have hsound' : w'.Sound records := by
    have hafter := Sound.runAlone hops hsound (r.addOrUpdate n)
    rwa [hrun] at hafter
  obtain ⟨m, hm, hrewritten, hsupplied⟩ := supplied_of_ok hops hid hproblem hsound hn hrun
  have hhosts : ∀ which, ∀ t ∈ (w'.pool which).allocated n.key, (w'.pool which).Hosts t := fun which t ht =>
    Pool.hosts_of_owner? (((hsound'.pools which).mirrored n.key t).1 ht)
  refine ⟨m, hm, fun hmanaged => ?_, fun hunmanaged hserved => ?_, hsupplied.idles hsound'.pools hproblem⟩
  · have hmanaged' := hrewritten.isUnmanaged.trans hmanaged
    refine ⟨networkId?_of_declaredId (hsupplied.id hmanaged'), fun hper => ?_⟩
    have hd := demand?_managed hmanaged' hper
    have hserves : r.network.families.Serves (r.declaredSubnets m) := hsupplied.serves _ hd
    have hheld : ∀ t ∈ r.declaredSubnets m, t ∈ w'.cluster.allocated m.key := hsupplied.held _ hd
    obtain ⟨f, hf⟩ := Families.exists_wants ((Network.of_problem?_eq_none hproblem).2 hper)
    obtain ⟨t, ht, -⟩ := hserves.2 f hf
    rw [hrewritten.key] at hheld
    exact ⟨_, subnets?_of_declaredSubnets (List.ne_nil_of_mem ht), hserves,
      fun t ht => ⟨hhosts .cluster t (hheld t ht), hheld t ht⟩⟩
  · have hd := demand?_overlay (hrewritten.isUnmanaged.trans hunmanaged) (hrewritten.servesInOverlay.trans hserved)
    have hserves : Families.onlyV4.Serves (declaredOverlay m) := hsupplied.serves _ hd
    have hheld : ∀ t ∈ declaredOverlay m, t ∈ w'.overlay.allocated m.key := hsupplied.held _ hd
    obtain ⟨t, ht⟩ := hserves.eq_singleton
    rw [ht, hrewritten.key] at hheld
    have hv4 : t.family = .v4 := by
      obtain ⟨u, hu, hfamily⟩ := hserves.2 .v4 rfl
      rw [ht] at hu
      rw [← List.mem_singleton.1 hu, hfamily]
    have hmem := hheld t List.mem_cons_self
    exact ⟨t, overlaySubnet?_of_declaredOverlay ht, hv4, hhosts .overlay t hmem, hmem⟩

/-- The ranges registered, beside a store that refuses the first write. -/
def started : World ScriptedStore.Refuser :=
  (sample.start.runAlone ScriptedStore.refuserOps (World.start sampleStore)).2

/-- There a node that declares nothing is handled, and has no need of a second run. -/
theorem unnumbered_rests :
    let run := (sample.addOrUpdate (.named "a")).runAlone ScriptedStore.refuserOps started
    run.1 = .ok () ∧ ∃ m, run.2.store.1.records.find? "a" = some m ∧
      m.subnets? Network.defaultName = .ok (some [lowerSubnet]) ∧
        (sample.addOrUpdate m).Idles ScriptedStore.refuserOps (.ok ()) run.2 := by
  have hstart : (sample.start.runAlone ScriptedStore.refuserOps (World.start sampleStore)).1 = .ok () := by
    decide +kernel
  have hstore : started.store = sampleStore := (fresh_runAlone_start ScriptedStore.refuserOps sample sampleStore).store
  have hkeyed : started.store.1.records.Keyed := by
    rw [hstore]
    exact sampleStore_keyed
  have hn : started.store.1.records.find? (Node.named "a").key = some (.named "a") := by decide +kernel
  have hok : ((sample.addOrUpdate (.named "a")).runAlone ScriptedStore.refuserOps started).1 = .ok () := by
    decide +kernel
  have hdeclared : (((sample.addOrUpdate (.named "a")).runAlone ScriptedStore.refuserOps
      started).2.store.1.records.find? "a").map (Node.subnets? Network.defaultName) =
        some (.ok (some [lowerSubnet])) := by decide +kernel
  generalize hrun : (sample.addOrUpdate (.named "a")).runAlone ScriptedStore.refuserOps started = run at hok hdeclared
  obtain ⟨result, w'⟩ := run
  obtain rfl : result = .ok () := hok
  obtain ⟨m, hm, -, -, hidles⟩ := rests_after_success (n := .named "a") ScriptedStore.faithful (by decide) hstart
    (fun which => ⟨[], rfl⟩) hkeyed hn hrun
  have hkey : w'.store.1.records.find? "a" = some m := hm
  dsimp only at hdeclared
  rw [hkey] at hdeclared
  exact ⟨rfl, m, hkey, Option.some.inj hdeclared, hidles⟩

end Reconciler

end HostSubnets
