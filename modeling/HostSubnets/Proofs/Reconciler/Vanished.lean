import HostSubnets.Proofs.Pool.Choice
import HostSubnets.Proofs.Reconciler.Sequential

/-!
# A node that is gone and comes back from an old copy

A run for a name without a record that holds nothing. The store answers that the node is missing, so whatever the
run reserved is given back, by the check after a reservation that needs no write (`releaseVanished`) or after the
write that fails (`undo`). Only where the run ends before either, because a family has run short, what was chosen of
the other family stays reserved: `vacant_iff_not_stranded` says exactly when that is.
-/

namespace HostSubnets.Reconciler

open HostSubnets.Task

variable {σ : Type} {ops : StoreOps σ} {records : σ → Records} {r : Reconciler} {name : String}

/-! ## What a missing node sees -/

def World.holdings (name : String) (w : World σ) (which : PoolName) : Set Cidr := (w.pool which).heldBy name

/-- The reply to a request of a name without a record, and what it holds before and after it. -/
def Request.Vanishing (name : String) :
    (q : Request) → (PoolName → Set Cidr) → q.Reply → (PoolName → Set Cidr) → Prop
  | .pool which q, h, reply, h' => q.Seen name (h which) reply (h' which) ∧ ∀ x, x ≠ which → h' x = h x
  | .get x, h, reply, h' => h' = h ∧ (x = name → ∃ e, reply = .error e ∧ e.isNotFound = true)
  | _, h, _, h' => h' = h

structure World.Lacks (records : σ → Records) (name : String) (w : World σ) : Prop where
  pools : ∀ which, (w.pool which).Coherent
  gone : (records w.store).find? name = none

section Perform

variable (hops : ops.Faithful records) {w : World σ} (hw : w.Lacks records name)
include hops hw

theorem World.Lacks.perform (q : Request) : (q.perform ops w).2.Lacks records name := by
  refine ⟨World.coherent_perform ops hw.pools q, ?_⟩
  have hfigures : ∀ gauges clock, (records (World.store { w with gauges, clock })).find? name = none :=
    fun _ _ => hw.gone
  cases q with
  | pool x q =>
    show (records (w.setPool x _).store).find? name = none
    rw [World.store_setPool]
    exact hw.gone
  | get x =>
    show (records (ops.get x w.store).2).find? name = none
    rw [hops.get_records]
    exact hw.gone
  | list selector =>
    show (records (ops.list selector w.store).2).find? name = none
    rw [hops.list_records]
    exact hw.gone
  | write n =>
    show (records (ops.write n w.store).2).find? name = none
    cases hr : (ops.write n w.store).1 with
    | ok m =>
      obtain ⟨hsome, -, hrecords⟩ := hops.write_ok n w.store m hr
      rw [hrecords, SortedMap.find?_insert]
      split
      · rename_i hname
        rw [← hname, hw.gone] at hsome
        cases hsome
      · exact hw.gone
    | error e =>
      rw [(hops.write_error n w.store e hr).1]
      exact hw.gone
  | pause delay jitter => exact hfigures _ _
  | recordCapacity figures => exact hfigures _ _
  | recordAllocated figures => exact hfigures _ _

omit hops in
theorem World.Lacks.vanishing_perform (hreports : ops.Reports records name) (q : Request) :
    q.Vanishing name (w.holdings name) (q.perform ops w).1 ((q.perform ops w).2.holdings name) := by
  have hstore : ∀ s : σ, World.holdings name { w with store := s } = w.holdings name := by
    intro s
    funext which
    rw [World.holdings, World.pool_withStore, World.holdings]
  have hfigures : ∀ gauges clock, World.holdings name { w with gauges, clock } = w.holdings name := by
    intro gauges clock
    funext which
    rw [World.holdings, World.pool_figures, World.holdings]
  cases q with
  | pool which q =>
    have hpool : ∀ x, (w.setPool which (q.perform (w.pool which)).2).holdings name x =
        (if x = which then (q.perform (w.pool which)).2 else w.pool x).heldBy name := by
      intro x
      rw [World.holdings, World.pool_setPool]
    refine ⟨?_, fun x hx => (hpool x).trans ?_⟩
    · show q.Seen name _ _ ((w.setPool which (q.perform (w.pool which)).2).holdings name which)
      rw [hpool which, if_pos rfl]
      exact (hw.pools which).seen_perform name q
    · rw [if_neg hx]
      rfl
  | get x =>
    refine ⟨hstore _, ?_⟩
    rintro rfl
    exact hreports w.store hw.gone
  | list selector => exact hstore _
  | write n => exact hstore _
  | pause delay jitter => exact hfigures _ _
  | recordCapacity figures => exact hfigures _ _
  | recordAllocated figures => exact hfigures _ _

theorem runAlone_of_vanishing (hreports : ops.Reports records name) {α : Type}
    {post : α → (PoolName → Set Cidr) → Prop} {program : Program α}
    (h : program.Always (Request.Vanishing name) (fun _ => True) post (w.holdings name)) :
    (program.runAlone ops w).2.Lacks records name ∧
      post (program.runAlone ops w).1 ((program.runAlone ops w).2.holdings name) := by
  have hstep : ∀ (q : Request) (w : World σ) (h : PoolName → Set Cidr),
      w.Lacks records name ∧ h = w.holdings name → ∃ h', q.Vanishing name h (q.perform ops w).1 h' ∧
        (q.perform ops w).2.Lacks records name ∧ h' = (q.perform ops w).2.holdings name := by
    rintro q w _ ⟨hw, rfl⟩
    exact ⟨_, hw.vanishing_perform hreports q, hw.perform hops q, rfl⟩
  obtain ⟨h', ⟨hlacks, hh'⟩, hpost⟩ := h.run hstep ⟨hw, rfl⟩
  subst hh'
  exact ⟨hlacks, hpost⟩

end Perform

/-! ## Giving back -/

/-- Nothing is held of one pool, and of the other what was held before. -/
def Cleared (which : PoolName) (h h' : PoolName → Set Cidr) : Prop := h' which = ∅ ∧ ∀ x, x ≠ which → h' x = h x

variable {which : PoolName} {h : PoolName → Set Cidr}

theorem releaseAll_vanishing :
    (askPool which (.releaseAll name) >>= fun _ => pure () : Program Unit).Always (Request.Vanishing name)
      (fun _ => True) (fun _ h' => Cleared which h h') h := by
  rw [always_bind]
  intro reply h' hstep
  obtain ⟨hheld, hothers⟩ := hstep
  exact ⟨trivial, hheld.trans (if_pos rfl), hothers⟩

theorem releaseVanished_vanishing :
    (releaseVanished which name).Always (Request.Vanishing name) (fun _ => True)
      (fun _ h' => Cleared which h h') h := by
  unfold releaseVanished
  rw [always_bind]
  intro reply h' hstep
  obtain ⟨rfl, hmissing⟩ := hstep
  obtain ⟨e, rfl, he⟩ := hmissing rfl
  refine ⟨trivial, ?_⟩
  change Always _ _ _ (if e.isNotFound = true then _ else _) _
  rw [if_pos he]
  exact releaseAll_vanishing

theorem undo_vanishing {allocated : List Cidr} {e : ControlError} (he : e.isNotFound = true) :
    (undo which name allocated e).Always (Request.Vanishing name) (fun _ => True)
      (fun _ h' => Cleared which h h') h := by
  rw [undo_eq, if_pos he, always_bind]
  have hrest : ∀ h₁ : PoolName → Set Cidr, (∀ x, x ≠ which → h₁ x = h x) →
      (askPool which (.releaseAll name) >>= fun _ => pure () : Program Unit).Always (Request.Vanishing name)
        (fun _ => True) (fun _ h' => Cleared which h h') h₁ := by
    intro h₁ hothers
    refine releaseAll_vanishing.imp fun _ h' hh' => ?_
    exact ⟨hh'.1, fun x hx => (hh'.2 x hx).trans (hothers x hx)⟩
  by_cases hnew : allocated ≠ []
  · rw [if_pos hnew, always_bind]
    intro reply h₁ hstep
    exact ⟨trivial, hrest h₁ hstep.2⟩
  · rw [if_neg hnew]
    exact hrest h fun _ _ => rfl

theorem update_vanishing (change : TextMap → Except AnnotationError TextMap) :
    (r.update name change).Always (Request.Vanishing name) (fun _ => True)
      (OrUnchanged (fun _ _ => False) (fun e => e.isNotFound = true) h) h := by
  unfold update
  rw [always_bind]
  have hattempt : (tryUpdate name change).Always (Request.Vanishing name) (fun _ => True)
      (OrUnchanged (fun _ _ => False) (fun e => e.isNotFound = true) h) h := by
    unfold tryUpdate
    rw [always_bind]
    intro reply h' hstep
    obtain ⟨rfl, hmissing⟩ := hstep
    obtain ⟨e, rfl, he⟩ := hmissing rfl
    exact ⟨trivial, rfl, he⟩
  refine (retry_unchanged hattempt fun delay => ?_).imp fun result h' hh' => ?_
  · intro reply h' hstep
    exact ⟨trivial, hstep⟩
  · cases result with
    | ok _ => exact hh'
    | error e => exact hh'

theorem writeOrUndo_vanishing (change : TextMap → TextMap) (allocated : List Cidr) :
    (r.writeOrUndo which name change allocated).Always (Request.Vanishing name) (fun _ => True)
      (fun _ h' => Cleared which h h') h := by
  unfold writeOrUndo
  rw [always_bind]
  refine (update_vanishing _).imp fun result h' hh' => ?_
  cases result with
  | ok _ => exact hh'.elim
  | error e =>
    obtain ⟨rfl, he⟩ := hh'
    refine (always_bind _ _ _).2 ((undo_vanishing he).imp fun _ h'' hh'' => ?_)
    exact hh''

theorem recordCapacity_vanishing :
    r.recordCapacity.Always (Request.Vanishing name) (fun _ => True) (fun _ h' => h' = h) h := by
  unfold recordCapacity
  split
  · rfl
  · rw [always_bind]
    intro figures h₁ hstep
    obtain ⟨hheld, hothers⟩ := hstep
    have hsame : h₁ = h := by
      funext x
      by_cases hx : x = .cluster
      · subst hx
        exact hheld
      · exact hothers x hx
    subst hsame
    refine ⟨trivial, fun _ h₂ hstep => ?_⟩
    obtain rfl : h₂ = h₁ := hstep
    exact ⟨trivial, rfl⟩

/-! ## Once the subnets are settled -/

/-- Nothing of the settled subnets of a missing node stays reserved. -/
theorem conclude_vanishing {n : Node} {settled : Option Pool.Assignment}
    (hsettled : ∀ t ∈ h .cluster, ∃ a, settled = some a ∧ t ∈ a.subnets) :
    (r.conclude n [] settled).Always (Request.Vanishing n.key) (fun _ => True)
      (fun _ h' => Cleared .cluster h h') h := by
  unfold conclude
  dsimp only
  split
  · rw [always_bind]
    split
    · exact releaseVanished_vanishing
    · rename_i hnone
      refine ⟨Set.eq_empty_iff_forall_notMem.2 fun t ht => hnone ⟨rfl, ?_⟩, fun _ _ => rfl⟩
      obtain ⟨a, rfl, hta⟩ := hsettled t ht
      have hne : a.subnets ≠ [] := List.ne_nil_of_mem hta
      simpa using hne
  · exact writeOrUndo_vanishing _ _

def concludeOverlay (r : Reconciler) (n : Node) (held : List Cidr) (a : Pool.Assignment) :
    Program (Except ControlError Unit) :=
  match a.subnets with
  | [] => pure (.ok ())
  | subnet :: _ =>
    if a.allocated = [] ∧ declaredOverlay n = [subnet] then
      (if held = [] then releaseVanished .overlay n.key else pure ()) >>= fun _ => pure (.ok ())
    else
      r.update n.key (.ok ∘ TextMap.setOverlaySubnet subnet) >>= fun result =>
        match result with
        | .ok _ => pure (.ok ())
        | .error e => undo .overlay n.key a.allocated e >>= fun _ => pure (.error e)

theorem syncOverlay_eq (n : Node) :
    r.syncOverlay n = askPool .overlay (.allocated n.key) >>= fun held =>
      onPool .overlay (Pool.reconcile n.key (declaredOverlay n) .onlyV4) >>= fun result =>
        match result with
        | .error e => pure (.error (.pool e))
        | .ok a => r.concludeOverlay n held a := by
  refine congrArg (askPool .overlay (.allocated n.key) >>= ·) (funext fun held => ?_)
  refine congrArg (onPool .overlay _ >>= ·) (funext fun result => ?_)
  cases result with
  | error e => rfl
  | ok a =>
    obtain ⟨subnets, allocated⟩ := a
    cases subnets with
    | nil => rfl
    | cons subnet rest =>
      dsimp only [concludeOverlay]
      split
      · split <;> rfl
      · rfl

theorem concludeOverlay_vanishing {n : Node} {a : Pool.Assignment} (hsettled : ∀ t ∈ h .overlay, t ∈ a.subnets) :
    (r.concludeOverlay n [] a).Always (Request.Vanishing n.key) (fun _ => True)
      (fun _ h' => Cleared .overlay h h') h := by
  unfold concludeOverlay
  split
  · rename_i hnone
    refine ⟨Set.eq_empty_iff_forall_notMem.2 fun t ht => ?_, fun _ _ => rfl⟩
    have hmem := hsettled t ht
    rw [hnone] at hmem
    cases hmem
  · split
    · rw [if_pos rfl, always_bind]
      exact releaseVanished_vanishing
    · exact writeOrUndo_vanishing _ _

/-! ## The whole run -/

theorem setPool_pool (which : PoolName) (w : World σ) : w.setPool which (w.pool which) = w := by
  cases which <;> rfl

theorem setPool_setPool (which : PoolName) (p q : Pool) (w : World σ) :
    (w.setPool which p).setPool which q = w.setPool which q := by
  cases which <;> rfl

theorem runAlone_askPool {α : Type} (ops : StoreOps σ) (which : PoolName) (q : Pool.Request) (f : q.Reply → Program α)
    (w : World σ) :
    Program.runAlone ops (askPool which q >>= f) w =
      (f (q.perform (w.pool which)).1).runAlone ops (w.setPool which (q.perform (w.pool which)).2) := rfl

theorem runAlone_onPool {α : Type} (ops : StoreOps σ) (which : PoolName) (program : Pool.Program α) (w : World σ) :
    (onPool which program).runAlone ops w =
      ((program.runAlone (w.pool which)).1, w.setPool which (program.runAlone (w.pool which)).2) := by
  induction program generalizing w with
  | done value => exact Prod.ext rfl (setPool_pool which w).symm
  | ask q next ih =>
    have hask : onPool which (.ask q next) = askPool which q >>= fun reply => onPool which (next reply) := rfl
    rw [hask, runAlone_askPool, ih, World.pool_setPool, if_pos rfl, setPool_setPool]
    rfl

theorem allocated_eq_nil_iff {p : Pool} : p.allocated name = [] ↔ p.heldBy name = ∅ := by
  rw [List.eq_nil_iff_forall_not_mem, Set.eq_empty_iff_forall_notMem]
  rfl

theorem World.Lacks.setPool {w : World σ} (hw : w.Lacks records name) (which : PoolName) {p : Pool} (hp : p.Coherent) :
    (w.setPool which p).Lacks records name where
  pools := by
    intro x
    rw [World.pool_setPool]
    split
    · exact hp
    · exact hw.pools x
  gone := by
    rw [World.store_setPool]
    exact hw.gone

theorem holdings_setPool (name : String) (which : PoolName) (p : Pool) (w : World σ) :
    (w.setPool which p).holdings name = Function.update (w.holdings name) which (p.heldBy name) := by
  funext x
  rw [World.holdings, World.pool_setPool]
  by_cases hx : x = which
  · subst hx
    rw [if_pos rfl, Function.update_self]
  · rw [if_neg hx, Function.update_of_ne hx, World.holdings]

section Runs

variable (hops : ops.Faithful records) {w : World σ} (hreports : ops.Reports records name)
  (hw : w.Lacks records name) (hvacant : ∀ which, w.holdings name which = ∅)
include hvacant

theorem runAlone_allocated {α : Type} (which : PoolName) (f : List Cidr → Program α) :
    Program.runAlone ops (askPool which (.allocated name) >>= f) w = (f []).runAlone ops w := by
  have hheld : (Pool.Request.allocated name).perform (w.pool which) = ([], w.pool which) :=
    Prod.ext (allocated_eq_nil_iff.2 (hvacant which)) rfl
  rw [runAlone_askPool, hheld, setPool_pool]

include hops hreports hw

/-- Subnets are settled and then written down or confirmed: nothing is left of it but what reconciling strands. -/
theorem settled_vacant (which : PoolName) (families : Families) (existing : List Cidr)
    {rest : Pool.Assignment → Program (Except ControlError Unit)}
    (hrest : ∀ a h, (∀ t ∈ h which, t ∈ a.subnets) →
      (rest a).Always (Request.Vanishing name) (fun _ => True) (fun _ h' => Cleared which h h') h) :
    let w' := (Program.runAlone ops (onPool which (Pool.reconcile name existing families) >>= fun result =>
      match result with
      | .error e => pure (.error (.pool e))
      | .ok a => rest a) w).2
    w'.Lacks records name ∧ (∀ x, x ≠ which → w'.holdings name x = ∅) ∧
      (w'.holdings name which = ∅ ↔ ¬ (w.pool which).Strands families existing) := by
  intro w'
  have hreconcile := Pool.reconcile_vacant (hw.pools which) (hvacant which) families existing
  have hw' : w' = ((match ((Pool.reconcile name existing families).runAlone (w.pool which)).1 with
      | .error e => pure (.error (.pool e))
      | .ok a => rest a : Program (Except ControlError Unit)).runAlone ops
        (w.setPool which ((Pool.reconcile name existing families).runAlone (w.pool which)).2)).2 := by
    show (Program.runAlone ops (_ >>= _) w).2 = _
    rw [runAlone_bind, runAlone_onPool]
  rw [hw']
  clear hw' w'
  generalize (Pool.reconcile name existing families).runAlone (w.pool which) = run at hreconcile ⊢
  obtain ⟨result, p⟩ := run
  obtain ⟨hcoherent, hresult⟩ := hreconcile
  have hlacks := hw.setPool which hcoherent
  have hafter := holdings_setPool name which p w
  have hself : (w.setPool which p).holdings name which = p.heldBy name := by
    rw [hafter, Function.update_self]
  have hothers : ∀ x, x ≠ which → (w.setPool which p).holdings name x = ∅ := by
    intro x hx
    rw [hafter, Function.update_of_ne hx]
    exact hvacant x
  cases result with
  | error e =>
    refine ⟨hlacks, hothers, ?_⟩
    show (w.setPool which p).holdings name which = ∅ ↔ _
    rw [hself]
    exact hresult
  | ok a =>
    obtain ⟨henough, hsettled⟩ := hresult
    have hheld : ∀ t ∈ (w.setPool which p).holdings name which, t ∈ a.subnets := by
      rw [hself]
      exact fun t ht => (hsettled t).1 ht
    obtain ⟨hlacks', hcleared, hkept⟩ := runAlone_of_vanishing hops hlacks hreports (hrest a _ hheld)
    exact ⟨hlacks', fun x hx => (hkept x hx).trans (hothers x hx), fun _ => henough, fun _ => hcleared⟩

end Runs

section Nodes

variable (hops : ops.Faithful records) {n : Node} {w : World σ} (hreports : ops.Reports records n.key)
  (hw : w.Lacks records n.key) (hvacant : ∀ which, w.holdings n.key which = ∅)
include hops hreports hw hvacant

theorem syncManaged_vacant (hper : r.network.perNode = true) :
    ((r.syncManaged n).runAlone ops w).2.Lacks records n.key ∧
      ((r.syncManaged n).runAlone ops w).2.holdings n.key .overlay = ∅ ∧
        (((r.syncManaged n).runAlone ops w).2.holdings n.key .cluster = ∅ ↔
          ¬ w.cluster.Strands r.network.families (r.declaredSubnets n)) := by
  rw [syncManaged_perNode hper, runAlone_allocated hvacant]
  have hconclude : ∀ a (h : PoolName → Set Cidr), (∀ t ∈ h .cluster, t ∈ a.subnets) →
      (r.conclude n [] (some a)).Always (Request.Vanishing n.key) (fun _ => True)
        (fun _ h' => Cleared .cluster h h') h :=
    fun a h hh => conclude_vanishing fun t ht => ⟨a, rfl, hh t ht⟩
  obtain ⟨hlacks, hothers, hiff⟩ := settled_vacant hops hreports hw hvacant .cluster r.network.families
    (r.declaredSubnets n) hconclude
  exact ⟨hlacks, hothers .overlay (by decide), hiff⟩

theorem shared_vacant (hper : r.network.perNode = false) :
    ((r.syncManaged n).runAlone ops w).2.Lacks records n.key ∧
      ∀ which, ((r.syncManaged n).runAlone ops w).2.holdings n.key which = ∅ := by
  have hnothing : ∀ t ∈ w.holdings n.key .cluster, ∃ a, (none : Option Pool.Assignment) = some a ∧ t ∈ a.subnets := by
    intro t ht
    rw [hvacant .cluster] at ht
    exact ht.elim
  rw [syncManaged_shared hper, runAlone_allocated hvacant]
  obtain ⟨hlacks, hcleared, hothers⟩ :=
    runAlone_of_vanishing hops hw hreports (conclude_vanishing (r := r) hnothing)
  refine ⟨hlacks, fun which => ?_⟩
  cases which with
  | cluster => exact hcleared
  | overlay => exact (hothers .overlay (by decide)).trans (hvacant .overlay)

theorem syncOverlay_vacant :
    ((r.syncOverlay n).runAlone ops w).2.Lacks records n.key ∧
      ∀ which, ((r.syncOverlay n).runAlone ops w).2.holdings n.key which = ∅ := by
  rw [syncOverlay_eq, runAlone_allocated hvacant]
  obtain ⟨hlacks, hothers, hiff⟩ := settled_vacant hops hreports hw hvacant .overlay .onlyV4 (declaredOverlay n)
    fun a h hh => concludeOverlay_vanishing (r := r) hh
  refine ⟨hlacks, fun which => ?_⟩
  cases which with
  | cluster => exact hothers .cluster (by decide)
  | overlay => exact hiff.2 (Pool.not_strands_onlyV4 _ _)

omit hvacant in
theorem holdings_thenRecord (result : Except ControlError Unit) :
    ((r.thenRecord result).runAlone ops w).2.holdings n.key = w.holdings n.key := by
  cases result with
  | error e => rfl
  | ok _ =>
    unfold thenRecord
    rw [runAlone_bind]
    exact (runAlone_of_vanishing hops hw hreports recordCapacity_vanishing).2

end Nodes

/-- **Exactly when a run from an old copy of a deleted node leaves nothing reserved.** The pools are any that
operations lead to, and nothing is held for the name. Nothing of the overlay stays reserved. Something of the cluster
does if, and only if, the copy is of a managed node with subnets of its own, a free subnet that it declares could be
adopted, and another wanted family has run short: that failure ends the run before its reservation is undone. -/
theorem vacant_iff_not_stranded (hops : ops.Faithful records) {n : Node} (hreports : ops.Reports records n.key)
    {w : World σ} {cs os : List Pool.Request} (hcluster : w.cluster = Pool.empty.after cs)
    (hoverlay : w.overlay = Pool.empty.after os) (hgone : (records w.store).find? n.key = none)
    (hvacant : ∀ which, (w.pool which).allocated n.key = []) :
    let w' := ((r.addOrUpdate n).runAlone ops w).2
    w'.overlay.allocated n.key = [] ∧
      (w'.cluster.allocated n.key = [] ↔ ¬ (n.isUnmanaged = false ∧ r.network.perNode = true ∧
        w.cluster.Strands r.network.families (r.declaredSubnets n))) := by
  intro w'
  have hw : w.Lacks records n.key := by
    refine ⟨fun which => ?_, hgone⟩
    cases which with
    | cluster =>
      show w.cluster.Coherent
      rw [hcluster]
      exact Pool.coherent_empty.after cs
    | overlay =>
      show w.overlay.Coherent
      rw [hoverlay]
      exact Pool.coherent_empty.after os
  have hheld : ∀ which, w.holdings n.key which = ∅ := fun which => allocated_eq_nil_iff.1 (hvacant which)
  show w'.overlay.allocated n.key = [] ∧ (w'.cluster.allocated n.key = [] ↔ _)
  rw [allocated_eq_nil_iff, allocated_eq_nil_iff]
  show w'.holdings n.key .overlay = ∅ ∧ (w'.holdings n.key .cluster = ∅ ↔ _)
  have hrun : ∀ sync : Program (Except ControlError Unit),
      r.addOrUpdate n = sync >>= r.thenRecord → (sync.runAlone ops w).2.Lacks records n.key →
        w'.holdings n.key = (sync.runAlone ops w).2.holdings n.key := by
    intro sync hsync hlacks
    show ((r.addOrUpdate n).runAlone ops w).2.holdings n.key = _
    rw [hsync, runAlone_bind]
    exact holdings_thenRecord hops hreports hlacks _
  cases hn : n.isUnmanaged with
  | false =>
    cases hper : r.network.perNode with
    | true =>
      obtain ⟨hlacks, hoverlay', hiff⟩ := syncManaged_vacant hops hreports hw hheld hper
      rw [hrun _ (addOrUpdate_managed hn) hlacks]
      refine ⟨hoverlay', hiff.trans ?_⟩
      simp
    | false =>
      obtain ⟨hlacks, hempty⟩ := shared_vacant hops hreports hw hheld hper
      rw [hrun _ (addOrUpdate_managed hn) hlacks]
      exact ⟨hempty .overlay, by simp [hempty .cluster]⟩
  | true =>
    cases hserves : r.servesInOverlay n with
    | true =>
      obtain ⟨hlacks, hempty⟩ := syncOverlay_vacant (r := r) hops hreports hw hheld
      rw [hrun _ (addOrUpdate_overlay hn hserves) hlacks]
      exact ⟨hempty .overlay, by simp [hempty .cluster]⟩
    | false =>
      rw [hrun (pure (.ok ())) (addOrUpdate_skipped hn hserves) hw]
      refine ⟨hheld .overlay, ?_⟩
      show w.holdings n.key .cluster = ∅ ↔ _
      simp [hheld .cluster]

/-! ## An old copy of a deleted node -/

/-- A network of two IPv4 subnets and a single IPv6 one. -/
def narrow : Reconciler :=
  ⟨.ofRanges [⟨⟨.v4, 167772160, 23, by decide, by decide⟩, 24, by decide⟩,
    ⟨⟨.v6, 0xfd00 <<< 112, 64, by decide, by decide⟩, 64, by decide⟩], .none, .standard⟩

def secondSubnet : Cidr := ⟨.v4, 167772416, 24, by decide, by decide⟩

/-- A node that declares the second IPv4 subnet and the IPv6 one. -/
def oldCopy : Node :=
  { Node.named "a" with annotations := some ((TextMap.setSubnets Network.defaultName
      [secondSubnet, ⟨.v6, 0xfd00 <<< 112, 64, by decide, by decide⟩] .empty).setNetworkId Network.defaultName 0) }

/-- That node was synced and deleted, then another one appeared and was handled. -/
def afterDeletion : World Records :=
  let synced := narrow.launch Records.ops [oldCopy] (Records.put oldCopy .empty)
  let deleted := ((narrow.delete "a").runAlone Records.ops { synced with store := synced.store.erase "a" }).2
  ((narrow.addOrUpdate (.named "b")).runAlone Records.ops
    { deleted with store := Records.put (.named "b") deleted.store }).2

/-- The old copy comes back to a name that holds nothing, and is left with a subnet. -/
theorem oldCopy_stranded :
    afterDeletion.store.find? "a" = none ∧ (∀ which, (afterDeletion.pool which).allocated "a" = []) ∧
      ((narrow.addOrUpdate oldCopy).runAlone Records.ops afterDeletion).2.cluster.allocated "a" = [secondSubnet] := by
  refine ⟨by decide +kernel, fun which => ?_, by decide +kernel⟩
  cases which <;> decide +kernel

/-- As long as the IPv6 subnet is free, nothing is left to the old copy. -/
theorem oldCopy_vacant :
    let w : World Records := ⟨Pool.empty.after (narrow.network.clusterRanges.map fun range =>
      .addRange range.network range.hostLength), Pool.empty.after [], .unset, 0, .empty⟩
    ((narrow.addOrUpdate oldCopy).runAlone Records.ops w).2.overlay.allocated "a" = [] ∧
      ((narrow.addOrUpdate oldCopy).runAlone Records.ops w).2.cluster.allocated "a" = [] := by
  intro w
  have hvacant : ∀ which, (w.pool which).allocated oldCopy.key = [] := by
    intro which
    cases which <;> decide +kernel
  have hiff := vacant_iff_not_stranded (r := narrow) (n := oldCopy) (w := w) Records.faithful (Records.reports _)
    rfl rfl rfl hvacant
  exact ⟨hiff.1, hiff.2.2 (by decide +kernel)⟩

end HostSubnets.Reconciler
