import HostSubnets.Proofs.Pool.Lists
import HostSubnets.Proofs.Reconciler.Deletion
import HostSubnets.Proofs.Reconciler.FirstCome
import HostSubnets.Proofs.Reconciler.Vanished
import HostSubnets.Proofs.Store.Contended

/-!
# What a run for one node leaves alone

The requests of a run for a node concern its own name and one of the pools, whatever its copy says and however often
the store refuses (`Request.Sole.confined`), so a whole run does (`confined_runAlone`). Of the writes that succeed there
is one at most (`addOrUpdate_writesOnce`), since all attempts but the last one have failed, and it changes no more than
the annotations that the node is due (`Node.RewrittenIn`). Deletions write nothing: `events_confined`.
-/

namespace HostSubnets

open HostSubnets.Task

/-- The records are the same but for the version and the annotations of some keys. -/
structure Node.RewrittenIn (keys : List AnnotationKey) (n m : Node) : Prop where
  rest : ∃ version annotations, m = { n with version, annotations }
  annotations : ∀ name, (∀ key ∈ keys, name ≠ key.text) → m.annotationAt? name = n.annotationAt? name

namespace Reconciler

variable {σ α β : Type} {ops : StoreOps σ} {records : σ → Records} {r : Reconciler} {name : String}
  {which : PoolName} {n : Node} {w w₁ w' : World σ}

/-! ## Nothing elsewhere -/

/-- What may have changed is the record of one name and, in one of the pools, what it holds. -/
structure World.Confined (records : σ → Records) (name : String) (which : PoolName) (w w' : World σ) : Prop where
  keyed : (records w'.store).Keyed
  others : ∀ x, x ≠ name → w.Untouched records x w'
  pool : ∀ other, other ≠ which → w'.pool other = w.pool other

theorem World.Confined.refl (hw : (records w.store).Keyed) : w.Confined records name which w :=
  ⟨hw, fun x _ => .refl x w, fun _ _ => rfl⟩

theorem World.Confined.trans (h : w.Confined records name which w₁) (h' : w₁.Confined records name which w') :
    w.Confined records name which w' where
  keyed := h'.keyed
  others := fun x hx => (h.others x hx).trans (h'.others x hx)
  pool := fun other hother => (h'.pool other hother).trans (h.pool other hother)

theorem World.confined_withStore {s : σ} (hw : (records w.store).Keyed)
    (hs : Records.Touched name (records w.store) (records s)) :
    w.Confined records name which { w with store := s } where
  keyed := hs.keyed hw
  others := fun x hx => ⟨hs.others x hx, fun y => by rw [World.pool_withStore]⟩
  pool := fun other _ => World.pool_withStore other w s

theorem World.confined_figures (hw : (records w.store).Keyed) (gauges : Gauges) (clock : Nat) :
    w.Confined records name which { w with gauges, clock } where
  keyed := hw
  others := fun x _ => ⟨rfl, fun y => by rw [World.pool_figures]⟩
  pool := fun other _ => World.pool_figures other w gauges clock

theorem World.untouched_pool {q : Pool.Request} (hq : q.IsBy name) {x : String} (hx : x ≠ name) (which : PoolName)
    (w : World σ) : w.Untouched records x ((Request.pool which q).perform ops w).2 where
  record := by
    show (records (w.setPool which _).store).find? x = _
    rw [World.store_setPool]
  held := by
    intro other
    show ((w.setPool which _).pool other).allocated x = _
    rw [World.pool_setPool]
    split
    · rename_i hother
      rw [hother]
      exact Pool.allocated_perform_of_ne hq hx _
    · rfl

theorem World.confined_pool {q : Pool.Request} {x : PoolName} (hw : (records w.store).Keyed)
    (hq : (Request.pool x q).Sole name which) :
    w.Confined records name which ((Request.pool x q).perform ops w).2 where
  keyed := by
    show (records (w.setPool x _).store).Keyed
    rw [World.store_setPool]
    exact hw
  others := fun y hy => World.untouched_pool hq.1 hy x w
  pool := fun other hother => (hq.on.spares hother).pool_perform ops w

/-- **A request on behalf of a name changes nothing elsewhere**, and is answered with a record of that name. -/
theorem Request.Sole.confined (hops : ops.Contended records) {q : Request} (hq : q.Sole name which)
    (hw : (records w.store).Keyed) :
    w.Confined records name which (q.perform ops w).2 ∧ q.Named (q.perform ops w).1 := by
  cases q with
  | pool x q => exact ⟨World.confined_pool hw hq, trivial⟩
  | get x =>
    obtain rfl : x = name := hq
    have htouched := hops.get_touches x w.store
    refine ⟨World.confined_withStore hw htouched, ?_⟩
    show (Request.get x).Named (ops.get x w.store).1
    cases hr : (ops.get x w.store).1 with
    | ok n => exact htouched.keyed hw x n (hops.get_ok x w.store n hr)
    | error e => exact trivial
  | list selector => exact hq.elim
  | write n =>
    obtain rfl : n.key = name := hq
    refine ⟨World.confined_withStore hw ?_, trivial⟩
    cases hr : (ops.write n w.store).1 with
    | ok m =>
      obtain ⟨⟨version, rfl⟩, hafter⟩ := hops.write_ok n w.store m hr
      rw [hafter]
      exact Records.touched_insert fun _ => rfl
    | error e => exact hops.write_error n w.store e hr
  | pause delay jitter => exact ⟨World.confined_figures hw _ _, trivial⟩
  | recordCapacity figures => exact ⟨World.confined_figures hw _ _, trivial⟩
  | recordAllocated figures => exact ⟨World.confined_figures hw _ _, trivial⟩

theorem confined_runAlone (hops : ops.Contended records) {program : Program α}
    (h : program.Only (Request.Sole name which) Request.Named) (hw : (records w.store).Keyed) :
    w.Confined records name which (program.runAlone ops w).2 := by
  have hstep : ∀ (q : Request) (w' : World σ), q.Sole name which → w.Confined records name which w' →
      w.Confined records name which (q.perform ops w').2 ∧ q.Named (q.perform ops w').1 := by
    intro q w' hq hw'
    obtain ⟨hafter, hnamed⟩ := hq.confined hops hw'.keyed
    exact ⟨hw'.trans hafter, hnamed⟩
  exact h.run hstep (.refl hw)

theorem runAlone_ask (q : Request) (f : q.Reply → Program α) (w : World σ) :
    Program.runAlone ops (ask q >>= f) w = (f (q.perform ops w).1).runAlone ops (q.perform ops w).2 := rfl

/-! ## Writes that succeed -/

/-- A write that succeeded, by the records before and after it. -/
structure StoreWrite where
  before : Records
  after : Records

def Request.written (ops : StoreOps σ) (records : σ → Records) (q : Request) (w : World σ) : List StoreWrite :=
  match q with
  | .write n =>
    match (ops.write n w.store).1 with
    | .ok _ => [⟨records w.store, records (ops.write n w.store).2⟩]
    | .error _ => []
  | _ => []

def Program.writes (ops : StoreOps σ) (records : σ → Records) (program : Program α) (w : World σ) : List StoreWrite :=
  program.collect (Request.perform ops) (Request.written ops records) w

theorem written_of_ok {m : Node} (h : (ops.write n w.store).1 = .ok m) :
    (Request.write n).written ops records w = [⟨records w.store, records (ops.write n w.store).2⟩] := by
  unfold Request.written
  simp only [h]

theorem written_of_error {e : StoreError} (h : (ops.write n w.store).1 = .error e) :
    (Request.write n).written ops records w = [] := by
  unfold Request.written
  simp only [h]

theorem Request.Silent.written {q : Request} (h : q.Silent name which) (w : World σ) :
    q.written ops records w = [] := by
  cases q with
  | write n => exact h.elim
  | _ => rfl

theorem writes_bind (task : Program α) (f : α → Program β) (w : World σ) :
    Program.writes ops records (task >>= f) w =
      task.writes ops records w ++ (f (task.runAlone ops w).1).writes ops records (task.runAlone ops w).2 :=
  collect_bind (Request.perform ops) (Request.written ops records) task f w

theorem writes_ask (q : Request) (f : q.Reply → Program α) (w : World σ) :
    Program.writes ops records (ask q >>= f) w =
      q.written ops records w ++ (f (q.perform ops w).1).writes ops records (q.perform ops w).2 := rfl

theorem writes_of_silent {program : Program α} (h : program.Only (Request.Silent name which) fun _ _ => True)
    (w : World σ) : program.writes ops records w = [] :=
  h.collect_eq_nil (fun _ w hq => hq.written w) w

/-! ## Repeated attempts -/

/-- The record of a name was written, as a change of its annotations has it. -/
def StoreWrite.Changes (name : String) (change : TextMap → TextMap) (write : StoreWrite) : Prop :=
  ∃ c m, write.before.find? name = some c ∧ Written change c m ∧ write.after = write.before.insert name m

/-- A success has written once, a failure nothing. -/
def WritesBy (name : String) (change : TextMap → TextMap) : Except ControlError Unit → List StoreWrite → Prop
  | .ok _, writes => ∃ write, writes = [write] ∧ write.Changes name change
  | .error _, writes => writes = []

/-- The second half of an attempt: what was read is written with its annotations changed. -/
def writeBack (change : TextMap → TextMap) (c : Node) : Program (Except ControlError Unit) :=
  ask (.write (c.changeAnnotations change)) >>= fun reply =>
    match reply with
    | .error e => pure (.error (.store e))
    | .ok _ => pure (.ok ())

theorem tryUpdate_eq (name : String) (change : TextMap → TextMap) :
    tryUpdate name (.ok ∘ change) = ask (.get name) >>= fun reply =>
      match reply with
      | .error e => pure (.error (.store e))
      | .ok c => writeBack change c := by
  refine congrArg (ask (.get name) >>= ·) (funext fun reply => ?_)
  cases reply with
  | error e => rfl
  | ok c =>
    refine congrArg (ask (.write (c.changeAnnotations change)) >>= ·) (funext fun reply => ?_)
    cases reply <;> rfl

theorem writesBy_bind {change : TextMap → TextMap} {task : Program (Except ControlError Unit)}
    {f : Except ControlError Unit → Program (Except ControlError Unit)}
    (h : WritesBy name change (task.runAlone ops w).1 (task.writes ops records w)) (hok : f (.ok ()) = pure (.ok ()))
    (herror : ∀ e, WritesBy name change ((f (.error e)).runAlone ops (task.runAlone ops w).2).1
      ((f (.error e)).writes ops records (task.runAlone ops w).2)) :
    WritesBy name change (Program.runAlone ops (task >>= f) w).1 (Program.writes ops records (task >>= f) w) := by
  rw [runAlone_bind, writes_bind]
  generalize task.runAlone ops w = run at h herror ⊢
  obtain ⟨result, w₁⟩ := run
  cases result with
  | ok _ =>
    obtain ⟨write, hwrite, hchange⟩ := h
    rw [hok, hwrite]
    exact ⟨write, rfl, hchange⟩
  | error e =>
    rw [show task.writes ops records w = [] from h, List.nil_append]
    exact herror e

section Attempts

variable (hops : ops.Contended records)
include hops

theorem writeBack_writesBy (change : TextMap → TextMap) {c : Node} (hc : (records w.store).find? name = some c)
    (hkey : c.key = name) :
    WritesBy name change ((writeBack change c).runAlone ops w).1 ((writeBack change c).writes ops records w) := by
  unfold writeBack
  rw [runAlone_ask, writes_ask]
  cases hr : (ops.write (c.changeAnnotations change) w.store).1 with
  | ok m =>
    obtain ⟨hm, hafter⟩ := hops.write_ok _ _ m hr
    have hreply : ((Request.write (c.changeAnnotations change)).perform ops w).1 = .ok m := hr
    rw [hreply, written_of_ok hr]
    refine ⟨_, rfl, c, m, hc, hm, ?_⟩
    rw [hafter, Node.key_changeAnnotations, hkey]
  | error e =>
    have hreply : ((Request.write (c.changeAnnotations change)).perform ops w).1 = .error e := hr
    rw [hreply, written_of_error hr]
    rfl

theorem tryUpdate_writesBy (name : String) (change : TextMap → TextMap) (hw : (records w.store).Keyed) :
    WritesBy name change ((tryUpdate name (.ok ∘ change)).runAlone ops w).1
      ((tryUpdate name (.ok ∘ change)).writes ops records w) := by
  have hfound : ∀ n, ((Request.get name).perform ops w).1 = .ok n →
      (records ((Request.get name).perform ops w).2.store).find? name = some n := hops.get_ok name w.store
  have hkeyed : (records ((Request.get name).perform ops w).2.store).Keyed := (hops.get_touches name w.store).keyed hw
  rw [tryUpdate_eq, runAlone_ask, writes_ask]
  generalize (Request.get name).perform ops w = answer at hfound hkeyed ⊢
  obtain ⟨reply, w₁⟩ := answer
  cases reply with
  | error e => rfl
  | ok c =>
    have hc := hfound c rfl
    exact writeBack_writesBy hops change hc (hkeyed name c hc)

theorem retryFrom_writesBy (r : Reconciler) (name : String) (change : TextMap → TextMap) (retries : Nat)
    (delay : Duration) (hw : (records w.store).Keyed) :
    let attempts : Program (Except ControlError Unit) :=
      retryFrom r.backoff ControlError.isConflict (fun delay => ask (.pause delay r.backoff.jitter))
        (tryUpdate name (.ok ∘ change)) retries delay
    WritesBy name change (attempts.runAlone ops w).1 (attempts.writes ops records w) := by
  induction retries generalizing delay w with
  | zero => exact tryUpdate_writesBy hops name change hw
  | succ retries ih =>
    have hkeyed := (confined_runAlone hops (tryUpdate_sole name .cluster (.ok ∘ change)) hw).keyed
    refine writesBy_bind (tryUpdate_writesBy hops name change hw) rfl fun e => ?_
    dsimp only
    split
    · have hpause : (Request.pause delay r.backoff.jitter).Silent name .cluster := trivial
      rw [runAlone_ask, writes_ask, hpause.written, List.nil_append]
      exact ih (r.backoff.next delay) (hpause.sole.confined hops hkeyed).1.keyed
    · rfl

/-- **However often a change is attempted, it is written once or not at all.** -/
theorem update_writesBy (r : Reconciler) (name : String) (change : TextMap → TextMap) (hw : (records w.store).Keyed) :
    WritesBy name change ((r.update name (.ok ∘ change)).runAlone ops w).1
      ((r.update name (.ok ∘ change)).writes ops records w) :=
  writesBy_bind (retryFrom_writesBy hops r name change _ _ hw) rfl fun _ => rfl

end Attempts

/-! ## One write at most -/

/-- Of all writes one succeeds at most, from whatever world, and it is of a kind. -/
def Program.WritesOnce (ops : StoreOps σ) (records : σ → Records) (P : StoreWrite → Prop) (program : Program α) : Prop :=
  ∀ w : World σ, (records w.store).Keyed →
    program.writes ops records w = [] ∨ ∃ write, program.writes ops records w = [write] ∧ P write

section Once

variable {P : StoreWrite → Prop} {task : Program α} {f : α → Program β}

theorem writesOnce_pure (value : α) : (pure value : Program α).WritesOnce ops records P :=
  fun _ _ => Or.inl rfl

theorem writesOnce_of_silent (name : String) (which : PoolName)
    (h : task.Only (Request.Silent name which) fun _ _ => True) : task.WritesOnce ops records P :=
  fun w _ => Or.inl (writes_of_silent h w)

theorem Program.WritesOnce.mono {Q : StoreWrite → Prop} (h : task.WritesOnce ops records P)
    (hPQ : ∀ write, P write → Q write) : task.WritesOnce ops records Q :=
  fun w hw => (h w hw).imp_right fun ⟨write, hwrite, hP⟩ => ⟨write, hwrite, hPQ write hP⟩

theorem Program.WritesOnce.bind_silent (h : task.WritesOnce ops records P) (name : String) (which : PoolName)
    (hf : ∀ value, (f value).Only (Request.Silent name which) fun _ _ => True) :
    Program.WritesOnce ops records P (task >>= f) := by
  intro w hw
  rw [writes_bind, writes_of_silent (hf _), List.append_nil]
  exact h w hw

theorem writesOnce_silent_bind (hops : ops.Contended records) (name : String) (which : PoolName)
    (h : task.Only (Request.Silent name which) fun _ _ => True) (hf : ∀ value, (f value).WritesOnce ops records P) :
    Program.WritesOnce ops records P (task >>= f) := by
  intro w hw
  have hafter := confined_runAlone hops (h.after.mono fun _ hq => hq.sole) hw
  rw [writes_bind, writes_of_silent h, List.nil_append]
  exact hf _ _ hafter.keyed

theorem writeOrUndo_writesOnce (hops : ops.Contended records) (r : Reconciler) (which : PoolName) (name : String)
    (change : TextMap → TextMap) (allocated : List Cidr) :
    (r.writeOrUndo which name change allocated).WritesOnce ops records fun write => write.Changes name change := by
  have hupdate : (r.update name (.ok ∘ change)).WritesOnce ops records fun write => write.Changes name change := by
    intro w hw
    have hwrites := update_writesBy hops r name change hw
    cases hresult : ((r.update name (.ok ∘ change)).runAlone ops w).1 <;> rw [hresult] at hwrites
    · exact Or.inl hwrites
    · exact Or.inr hwrites
  refine hupdate.bind_silent name which fun result => ?_
  cases result with
  | ok _ => exact only_pure _
  | error e => exact only_bind (undo_silent name which allocated e) fun _ => only_pure _

end Once

/-- The annotations that a run for a node writes. -/
def dueKeys (n : Node) : List AnnotationKey := if n.isUnmanaged then [.overlaySubnet] else [.subnets, .networkIds]

/-- What a run for a node writes is its record, but for the annotations that it is due as it was. -/
def StoreWrite.Due (n : Node) (write : StoreWrite) : Prop :=
  ∃ c m, write.before.find? n.key = some c ∧ write.after = write.before.insert n.key m ∧ c.RewrittenIn (dueKeys n) m

theorem StoreWrite.Changes.due {change : TextMap → TextMap} {write : StoreWrite} (h : write.Changes n.key change)
    (hchange : ∀ key, (∀ due ∈ dueKeys n, key ≠ due.text) →
      ∀ annotations, (change annotations).find? key = annotations.find? key) : write.Due n := by
  obtain ⟨c, m, hc, ⟨version, rfl⟩, hafter⟩ := h
  refine ⟨c, _, hc, hafter, ⟨version, _, rfl⟩, fun key hkey => ?_⟩
  exact Node.annotationAt?_changeAnnotations_of_find? (hchange key hkey) c

theorem find?_declare_of_ne (r : Reconciler) (subnets : Option (List Cidr)) {key : String}
    (hsubnets : key ≠ AnnotationKey.subnets.text) (hids : key ≠ AnnotationKey.networkIds.text) (annotations : TextMap) :
    (r.declare subnets annotations).find? key = annotations.find? key := by
  unfold declare
  rw [TextMap.find?_setNetworkId_of_ne hids]
  cases subnets with
  | none => rfl
  | some l => exact TextMap.find?_setSubnets_of_ne hsubnets annotations

section Runs

variable (hops : ops.Contended records)
include hops

theorem syncManaged_writesOnce (r : Reconciler) (hn : n.isUnmanaged = false) :
    (r.syncManaged n).WritesOnce ops records (StoreWrite.Due n) := by
  rw [syncManaged_eq]
  refine writesOnce_silent_bind hops n.key .cluster (only_perform ⟨trivial, Or.inl rfl⟩) fun held => ?_
  refine writesOnce_silent_bind hops n.key .cluster (settle_silent r n.key _) fun result => ?_
  cases result with
  | error e => exact writesOnce_pure _
  | ok settled =>
    dsimp only [conclude]
    split
    · exact writesOnce_of_silent n.key .cluster (lookAgain_silent n.key .cluster _ _)
    · refine (writeOrUndo_writesOnce hops r .cluster n.key _ _).mono fun write hwrite => hwrite.due ?_
      intro key hkey
      rw [dueKeys, hn] at hkey
      exact find?_declare_of_ne r _ (hkey .subnets (by simp)) (hkey .networkIds (by simp))

theorem syncOverlay_writesOnce (r : Reconciler) (hn : n.isUnmanaged = true) :
    (r.syncOverlay n).WritesOnce ops records (StoreWrite.Due n) := by
  rw [syncOverlay_eq]
  refine writesOnce_silent_bind hops n.key .overlay (only_perform ⟨trivial, Or.inl rfl⟩) fun held => ?_
  refine writesOnce_silent_bind hops n.key .overlay
    (onPool_silent n.key .overlay (Pool.reconcile_only n.key .onlyV4 (declaredOverlay n))) fun result => ?_
  cases result with
  | error e => exact writesOnce_pure _
  | ok a =>
    dsimp only [concludeOverlay]
    split
    · exact writesOnce_pure _
    · split
      · exact writesOnce_of_silent n.key .overlay (lookAgain_silent n.key .overlay _ _)
      · refine (writeOrUndo_writesOnce hops r .overlay n.key _ _).mono fun write hwrite => hwrite.due ?_
        intro key hkey
        rw [dueKeys, hn] at hkey
        exact TextMap.find?_setOverlaySubnet_of_ne (hkey .overlaySubnet (by simp))

/-- **A run for a node writes its record once or not at all**, and no more of it than the node is due. -/
theorem addOrUpdate_writesOnce (r : Reconciler) (n : Node) :
    (r.addOrUpdate n).WritesOnce ops records (StoreWrite.Due n) := by
  cases hn : n.isUnmanaged with
  | false =>
    rw [addOrUpdate_managed hn]
    exact (syncManaged_writesOnce hops r hn).bind_silent n.key .cluster fun result =>
      thenRecord_silent r n.key .cluster result
  | true =>
    cases hserves : r.servesInOverlay n with
    | true =>
      rw [addOrUpdate_overlay hn hserves]
      exact (syncOverlay_writesOnce hops r hn).bind_silent n.key .overlay fun result =>
        thenRecord_silent r n.key .overlay result
    | false =>
      rw [addOrUpdate_skipped hn hserves]
      exact writesOnce_of_silent n.key .overlay (thenRecord_silent r n.key .overlay _)

end Runs

/-! ## Deletions -/

theorem Request.Clears.store_perform {q : Request} (h : q.Clears name) (w : World σ) :
    (q.perform ops w).2.store = w.store := by
  cases q with
  | pool which q => exact World.store_setPool which _ w
  | recordCapacity figures => rfl
  | _ => exact h.elim

theorem Request.Clears.untouched_perform {q : Request} (h : q.Clears name) {x : String} (hx : x ≠ name) (w : World σ) :
    w.Untouched records x (q.perform ops w).2 := by
  cases q with
  | pool which q => exact World.untouched_pool h.isBy hx which w
  | recordCapacity figures => exact ⟨rfl, fun which => congrArg (Pool.allocated x) (World.pool_figures which w _ _)⟩
  | _ => exact h.elim

structure World.Spared (records : σ → Records) (name : String) (w w' : World σ) : Prop where
  store : w'.store = w.store
  others : ∀ x, x ≠ name → w.Untouched records x w'

/-- **A deletion leaves the store alone, and what other names hold.** -/
theorem delete_spared (ops : StoreOps σ) (records : σ → Records) (r : Reconciler) (name : String) (w : World σ) :
    w.Spared records name ((r.delete name).runAlone ops w).2 := by
  have hstep : ∀ (q : Request) (w' : World σ), q.Clears name → w.Spared records name w' →
      w.Spared records name (q.perform ops w').2 ∧ True :=
    fun q w' hq hw' => ⟨⟨(hq.store_perform w').trans hw'.store, fun x hx =>
      (hw'.others x hx).trans (hq.untouched_perform hx w')⟩, trivial⟩
  exact (delete_clears r name).run hstep ⟨rfl, fun x _ => .refl x w⟩

/-! ## Events -/

/-- **The events of a node concern that node alone.** Whatever the pools hold and the copy says, and whenever calls fail
or others write the record first: no other name has its record changed or what it holds, and a node is handled in one of
the pools by its label. At most one write succeeds, and of the record it changes the version and the annotations that
are the node's due. A deletion does not touch the store. -/
theorem events_confined (hops : ops.Contended records) (r : Reconciler) (hw : (records w.store).Keyed) :
    (∀ n : Node,
      (∀ name, name ≠ n.key → w.Untouched records name ((r.addOrUpdate n).runAlone ops w).2) ∧
      (n.isUnmanaged = false → ((r.addOrUpdate n).runAlone ops w).2.overlay = w.overlay) ∧
      (n.isUnmanaged = true → ((r.addOrUpdate n).runAlone ops w).2.cluster = w.cluster) ∧
      ((r.addOrUpdate n).writes ops records w).length ≤ 1 ∧
      ∀ write ∈ (r.addOrUpdate n).writes ops records w, ∃ c m, write.before.find? n.key = some c ∧
        write.after = write.before.insert n.key m ∧
          c.RewrittenIn (if n.isUnmanaged then [.overlaySubnet] else [.subnets, .networkIds]) m) ∧
    ∀ name : String,
      (∀ other, other ≠ name → w.Untouched records other ((r.delete name).runAlone ops w).2) ∧
      ((r.delete name).runAlone ops w).2.store = w.store ∧ (r.delete name).writes ops records w = [] := by
  refine ⟨fun n => ?_, fun name => ?_⟩
  · have hconfined := confined_runAlone hops (addOrUpdate_sole r n) hw
    refine ⟨hconfined.others, fun hn => hconfined.pool .overlay ?_, fun hn => hconfined.pool .cluster ?_, ?_⟩
    · rw [poolFor, hn]
      decide
    · rw [poolFor, hn]
      decide
    · rcases addOrUpdate_writesOnce hops r n w hw with hnone | ⟨write, hone, hdue⟩
      · rw [hnone]
        exact ⟨Nat.zero_le 1, List.forall_mem_nil _⟩
      · rw [hone]
        exact ⟨Nat.le_refl 1, List.forall_mem_singleton.2 hdue⟩
  · obtain ⟨hstore, hothers⟩ := delete_spared ops records r name w
    refine ⟨hothers, hstore, (delete_clears r name).collect_eq_nil (fun q w hq => ?_) w⟩
    cases q with
    | write n => exact hq.elim
    | _ => rfl

/-- A node that declares a subnet and one that declares nothing. The record of the latter changes before it is written,
and then a write collides. -/
def disturbedStore : ScriptedStore :=
  { ScriptedStore.empty with
    records := Records.put (declaring "b" [lowerSubnet]) (Records.put (.named "c") .empty)
    writeFaults := [.touch, .conflict] }

theorem disturbedStore_keyed : disturbedStore.records.Keyed :=
  (Records.keyed_empty.put (.named "c")).put (declaring "b" [lowerSubnet])

/-- A copy of the latter declares what the former holds. It gets the other subnet, at the third attempt. -/
theorem disturbed_confined :
    let w := sample.launch ScriptedStore.ops disturbedStore.records.values disturbedStore
    let run := (sample.addOrUpdate (declaring "c" [lowerSubnet])).runAlone ScriptedStore.ops w
    run.1 = .ok () ∧ run.2.store.writeAttempts = 3 ∧
      run.2.cluster.allocated "c" = [upperSubnet] ∧ run.2.cluster.allocated "b" = [lowerSubnet] ∧
        run.2.store.records.find? "b" = some (declaring "b" [lowerSubnet]) ∧
          ∃ write, (sample.addOrUpdate (declaring "c" [lowerSubnet])).writes ScriptedStore.ops ScriptedStore.records w =
            [write] := by
  intro w run
  have hstore : w.store = disturbedStore := store_launch sample _ _ _
  have hkeyed : w.store.records.Keyed := by
    rw [hstore]
    exact disturbedStore_keyed
  obtain ⟨hruns, -⟩ := events_confined ScriptedStore.contended sample hkeyed
  obtain ⟨hothers, -, -, hlength, -⟩ := hruns (declaring "c" [lowerSubnet])
  have hb : w.Untouched ScriptedStore.records "b" run.2 := hothers "b" (key_declaring "c" [lowerSubnet] ▸ by decide)
  have hbefore : w.cluster.allocated "b" = [lowerSubnet] := by decide +kernel
  have hfind : disturbedStore.records.find? "b" = some (declaring "b" [lowerSubnet]) := by decide +kernel
  have hwritten : 0 < ((sample.addOrUpdate (declaring "c" [lowerSubnet])).writes ScriptedStore.ops
      ScriptedStore.records w).length := by decide +kernel
  have hsame : w.store.records.find? "b" = disturbedStore.records.find? "b" := by rw [hstore]
  exact ⟨by decide +kernel, by decide +kernel, by decide +kernel, (hb.held .cluster).trans hbefore,
    hb.record.trans (hsame.trans hfind), List.length_eq_one_iff.1 (Nat.le_antisymm hlength hwritten)⟩

end Reconciler

end HostSubnets
