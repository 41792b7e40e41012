import HostSubnets.Proofs.Reconciler.Managed

/-!
# Programs of one node ask for that node alone

`addOrUpdate_sole`, `delete_only` : every request made for a node reserves and gives back for that name, reads that
record or writes it, whatever is answered, and a node that is brought to its subnets has them in one pool only
(`poolFor`). What other names see is therefore kept by whole runs (`view_runAlone`), and so is the other pool
(`pool_runAlone`).
-/

namespace HostSubnets

open HostSubnets.Task

namespace Reconciler

def Request.On (name : String) (which : PoolName) : Request → Prop
  | .pool x q => q.IsBy name ∧ (x = which ∨ q.Reads)
  | .write n => n.key = name
  | _ => True

/-- A request on behalf of a name that writes nothing. -/
def Request.Silent (name : String) (which : PoolName) : Request → Prop
  | .pool x q => q.IsBy name ∧ (x = which ∨ q.Reads)
  | .get x => x = name
  | .list _ => False
  | .write _ => False
  | _ => True

/-- Such a request, or one that writes the record of the name. -/
def Request.Sole (name : String) (which : PoolName) : Request → Prop
  | .write n => n.key = name
  | q => q.Silent name which

theorem Request.Silent.sole {name : String} {which : PoolName} {q : Request} (h : q.Silent name which) :
    q.Sole name which := by
  cases q with
  | write n => exact h.elim
  | _ => exact h

theorem Request.Sole.on {name : String} {which : PoolName} {q : Request} (h : q.Sole name which) : q.On name which := by
  cases q with
  | pool x q => exact h
  | write n => exact h
  | _ => exact trivial

theorem Request.On.isBy {name : String} {which : PoolName} {q : Request} (h : q.On name which) : q.IsBy name := by
  cases q with
  | pool x q => exact h.1
  | _ => exact h

/-- A request that leaves a pool as it is. -/
def Request.Spares (which : PoolName) : Request → Prop
  | .pool x q => x ≠ which ∨ q.Reads
  | _ => True

theorem Request.Spares.pool_perform {σ : Type} (ops : StoreOps σ) {which : PoolName} {q : Request} (h : q.Spares which)
    (w : World σ) : (q.perform ops w).2.pool which = w.pool which := by
  rcases World.pool_perform ops q which w with ⟨p, rfl, hpool⟩ | hsame
  · exact hpool.trans ((h.resolve_left fun hne => hne rfl).perform _)
  · exact hsame

theorem Request.On.spares {name : String} {which other : PoolName} {q : Request} (h : q.On name which)
    (hne : other ≠ which) : q.Spares other := by
  cases q with
  | pool x q =>
    refine Or.imp_left ?_ h.2
    rintro rfl
    exact Ne.symm hne
  | _ => exact trivial

/-- The pool in which a node is to have its subnets. -/
def poolFor (n : Node) : PoolName := if n.isUnmanaged then .overlay else .cluster

variable (r : Reconciler) (name : String) (which : PoolName)

/-! ### Parts that write nothing -/

section Silent

variable {ok : (q : Request) → q.Reply → Prop}

theorem onPool_silent {α : Type} {program : Pool.Program α}
    (h : program.Only (Pool.Request.IsBy name) fun _ _ => True) :
    (onPool which program).Only (Request.Silent name which) ok := by
  induction program with
  | done value => exact h
  | ask q next ih => exact ⟨⟨h.1, Or.inl rfl⟩, fun reply _ => ih reply (h.2 reply trivial)⟩

theorem releaseVanished_silent : (releaseVanished which name).Only (Request.Silent name which) ok := by
  refine only_ask rfl fun reply _ => ?_
  cases reply with
  | ok n => exact only_pure _
  | error e =>
    dsimp only
    split
    · exact only_ask ⟨rfl, Or.inl rfl⟩ fun _ _ => only_pure _
    · exact only_pure _

theorem lookAgain_silent {α : Type} (suspect : Prop) [Decidable suspect] (value : α) :
    Task.Only (Request.Silent name which) ok
      ((if suspect then releaseVanished which name else pure ()) >>= fun _ => pure value) := by
  refine only_bind ?_ fun _ => only_pure _
  split
  · exact releaseVanished_silent name which
  · exact only_pure _

theorem undo_silent (allocated : List Cidr) (e : ControlError) :
    (undo which name allocated e).Only (Request.Silent name which) ok := by
  rw [undo_eq]
  refine only_bind ?_ fun _ => ?_
  · split
    · exact only_ask ⟨rfl, Or.inl rfl⟩ fun _ _ => only_pure _
    · exact only_pure _
  · split
    · exact only_ask ⟨rfl, Or.inl rfl⟩ fun _ _ => only_pure _
    · exact only_pure _

theorem recordCapacity_only {p : Request → Prop} (hcount : p (.pool .cluster .count))
    (hrecord : ∀ figures, p (.recordCapacity figures)) : r.recordCapacity.Only p ok := by
  unfold recordCapacity
  split
  · exact only_pure _
  · exact only_ask hcount fun figures _ => only_perform (hrecord figures)

theorem thenRecord_silent (result : Except ControlError Unit) :
    (r.thenRecord result).Only (Request.Silent name which) ok := by
  cases result with
  | error e => exact only_pure _
  | ok _ =>
    exact only_bind (recordCapacity_only r ⟨trivial, Or.inr trivial⟩ fun _ => trivial) fun _ => only_pure _

theorem settle_silent (existing : List Cidr) :
    (r.settle name existing).Only (Request.Silent name .cluster) ok := by
  unfold settle
  split
  · refine only_bind (onPool_silent name .cluster (Pool.reconcile_only name r.network.families existing))
      fun result => ?_
    cases result <;> exact only_pure _
  · exact only_pure _

end Silent

/-! ### Writing -/

theorem tryUpdate_sole (change : TextMap → Except AnnotationError TextMap) :
    (tryUpdate name change).Only (Request.Sole name which) Request.Named := by
  refine only_ask rfl fun reply hnamed => ?_
  cases reply with
  | error e => exact only_pure _
  | ok n =>
    dsimp only
    split
    · exact only_pure _
    · refine only_ask hnamed fun reply _ => ?_
      cases reply <;> exact only_pure _

theorem update_sole (change : TextMap → Except AnnotationError TextMap) :
    (r.update name change).Only (Request.Sole name which) Request.Named := by
  refine only_bind (retry_only (tryUpdate_sole name which change) fun delay => only_perform trivial) fun result => ?_
  cases result <;> exact only_pure _

theorem writeOrUndo_sole (change : TextMap → TextMap) (allocated : List Cidr) :
    (r.writeOrUndo which name change allocated).Only (Request.Sole name which) Request.Named := by
  unfold writeOrUndo
  refine only_bind (update_sole r name which _) fun result => ?_
  cases result with
  | ok _ => exact only_pure _
  | error e => exact only_bind ((undo_silent name which allocated e).mono fun _ h => h.sole) fun _ => only_pure _

theorem syncManaged_sole (n : Node) : (r.syncManaged n).Only (Request.Sole n.key .cluster) Request.Named := by
  rw [syncManaged_eq]
  refine only_ask ⟨trivial, Or.inl rfl⟩ fun held _ =>
    only_bind ((settle_silent r n.key _).mono fun _ h => h.sole) fun result => ?_
  cases result with
  | error e => exact only_pure _
  | ok settled =>
    dsimp only [conclude]
    split
    · exact (lookAgain_silent n.key .cluster _ _).mono fun _ h => h.sole
    · exact writeOrUndo_sole r n.key .cluster _ _

theorem syncOverlay_sole (n : Node) : (r.syncOverlay n).Only (Request.Sole n.key .overlay) Request.Named := by
  have hsettle : (onPool .overlay (Pool.reconcile n.key (declaredOverlay n) .onlyV4)).Only
      (Request.Silent n.key .overlay) Request.Named :=
    onPool_silent n.key .overlay (Pool.reconcile_only n.key .onlyV4 (declaredOverlay n))
  refine only_ask ⟨trivial, Or.inl rfl⟩ fun held _ => only_bind (hsettle.mono fun _ h => h.sole) fun result => ?_
  cases result with
  | error e => exact only_pure _
  | ok a =>
    dsimp only
    split
    · exact only_pure _
    · split
      · split
        · exact only_bind ((releaseVanished_silent n.key .overlay).mono fun _ h => h.sole) fun _ => only_pure _
        · exact only_pure _
      · exact writeOrUndo_sole r n.key .overlay _ _

/-- **A run for a node asks for that node alone**, and in one pool. -/
theorem addOrUpdate_sole (n : Node) : (r.addOrUpdate n).Only (Request.Sole n.key (poolFor n)) Request.Named := by
  have hrecord : ∀ which result, (r.thenRecord result).Only (Request.Sole n.key which) Request.Named :=
    fun which result => (thenRecord_silent r n.key which result).mono fun _ h => h.sole
  cases hn : n.isUnmanaged with
  | false =>
    rw [addOrUpdate_managed hn, poolFor, hn, if_neg Bool.false_ne_true]
    exact only_bind (syncManaged_sole r n) (hrecord .cluster)
  | true =>
    rw [poolFor, hn, if_pos rfl]
    cases hserves : r.servesInOverlay n with
    | true =>
      rw [addOrUpdate_overlay hn hserves]
      exact only_bind (syncOverlay_sole r n) (hrecord .overlay)
    | false =>
      rw [addOrUpdate_skipped hn hserves]
      exact hrecord .overlay _

theorem addOrUpdate_on (n : Node) : (r.addOrUpdate n).Only (Request.On n.key (poolFor n)) Request.Named :=
  (addOrUpdate_sole r n).mono fun _ h => h.on

theorem addOrUpdate_only (n : Node) : (r.addOrUpdate n).Only (Request.IsBy n.key) Request.Named :=
  (addOrUpdate_on r n).mono fun _ h => h.isBy

theorem delete_eq :
    r.delete name =
      (if r.hasOverlay = true then askPool .overlay (.releaseAll name) >>= fun _ => pure () else pure ()) >>=
        fun _ =>
          if r.network.perNode = true then askPool .cluster (.releaseAll name) >>= fun _ => r.recordCapacity
          else pure () := by
  unfold delete
  split <;> split <;> rfl

theorem delete_asks {p : Request → Prop} {ok : (q : Request) → q.Reply → Prop}
    (hrelease : ∀ which, p (.pool which (.releaseAll name))) (hcount : p (.pool .cluster .count))
    (hrecord : ∀ figures, p (.recordCapacity figures)) : (r.delete name).Only p ok := by
  rw [delete_eq]
  refine only_bind ?_ fun _ => ?_
  · split
    · exact only_ask (hrelease .overlay) fun _ _ => only_pure _
    · exact only_pure _
  · split
    · exact only_ask (hrelease .cluster) fun _ _ => recordCapacity_only r hcount hrecord
    · exact only_pure _

theorem delete_only : (r.delete name).Only (Request.IsBy name) Request.Named :=
  delete_asks r name (fun _ => rfl) trivial fun _ => trivial

/-! ## Runs -/

section Runs

variable {σ α : Type} {ops : StoreOps σ} {records : σ → Records} (hops : ops.Faithful records) {w : World σ}
  (hw : w.Sound records)
include hops hw

theorem Sound.runAlone (program : Program α) : (program.runAlone ops w).2.Sound records :=
  run_keeps (fun q _ hw' => hw'.perform hops q) program hw

/-- **A run for one name shows no other name anything.** -/
theorem view_runAlone {x : String} {program : Program α} (h : program.Only (Request.IsBy x) Request.Named)
    (which : PoolName) {name : String} (hne : x ≠ name) :
    (program.runAlone ops w).2.view records which name = w.view records which name := by
  have hstep : ∀ (q : Request) (w' : World σ), q.IsBy x →
      w'.Sound records ∧ w'.view records which name = w.view records which name →
      ((q.perform ops w').2.Sound records ∧
        (q.perform ops w').2.view records which name = w.view records which name) ∧
        q.Named (q.perform ops w').1 := by
    rintro q w' hq ⟨hw', hview⟩
    have hsame := hq.eq_of_seen hne (hw'.seen_perform hops which name q)
    exact ⟨⟨hw'.perform hops q, hsame.trans hview⟩, hw'.named_perform hops q⟩
  exact (h.run hstep ⟨hw, rfl⟩).2

/-- **A run in one pool leaves the other as it is.** -/
theorem pool_runAlone {x : String} {which other : PoolName} {program : Program α}
    (h : program.Only (Request.On x which) Request.Named) (hne : other ≠ which) :
    (program.runAlone ops w).2.pool other = w.pool other := by
  have hstep : ∀ (q : Request) (w' : World σ), q.On x which → w'.Sound records ∧ w'.pool other = w.pool other →
      ((q.perform ops w').2.Sound records ∧ (q.perform ops w').2.pool other = w.pool other) ∧
        q.Named (q.perform ops w').1 := by
    rintro q w' hq ⟨hw', hpool⟩
    exact ⟨⟨hw'.perform hops q, ((hq.spares hne).pool_perform ops w').trans hpool⟩, hw'.named_perform hops q⟩
  exact (h.run hstep ⟨hw, rfl⟩).2

omit hops hw in
theorem pool_runAlone_of_spares {which : PoolName} {program : Program α}
    (h : program.Only (Request.Spares which) fun _ _ => True) (ops : StoreOps σ) (w : World σ) :
    (program.runAlone ops w).2.pool which = w.pool which := by
  induction program generalizing w with
  | done value => rfl
  | ask q next ih => exact (ih _ (h.2 _ trivial) _).trans (h.1.pool_perform ops w)

/-- What is followed on the view of a name holds of its view after a run. -/
theorem runAlone_of_always {which : PoolName} {name : String} {inv : View → Prop} {post : α → View → Prop}
    {program : Program α} (h : program.Always (Request.Seen which name) inv post (w.view records which name)) :
    post (program.runAlone ops w).1 ((program.runAlone ops w).2.view records which name) := by
  have hstep : ∀ (q : Request) (w' : World σ) (v : View), w'.Sound records ∧ v = w'.view records which name →
      ∃ v', q.Seen which name v (q.perform ops w').1 v' ∧
        (q.perform ops w').2.Sound records ∧ v' = (q.perform ops w').2.view records which name := by
    rintro q w' _ ⟨hw', rfl⟩
    exact ⟨_, hw'.seen_perform hops which name q, hw'.perform hops q, rfl⟩
  obtain ⟨v, ⟨-, hv⟩, hpost⟩ := h.run hstep ⟨hw, rfl⟩
  subst hv
  exact hpost

theorem runAlone_thenRecord {r : Reconciler} (result : Except ControlError Unit) (which : PoolName) (name : String) :
    ((r.thenRecord result).runAlone ops w).1 = result ∧
      ((r.thenRecord result).runAlone ops w).2.view records which name = w.view records which name := by
  have halways : (r.thenRecord result).Always (Request.Seen which name) (fun _ => True)
      (fun result' v => result' = result ∧ v = w.view records which name) (w.view records which name) :=
    thenRecord_always trivial result
  exact runAlone_of_always hops hw halways

end Runs

end Reconciler

end HostSubnets
