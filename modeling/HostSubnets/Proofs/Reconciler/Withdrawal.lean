import HostSubnets.Proofs.Node.Networks
import HostSubnets.Proofs.Reconciler.Demand
import HostSubnets.Proofs.Reconciler.FirstCome
import HostSubnets.Proofs.Reconciler.Sequential
import HostSubnets.Proofs.Store.Retaining

/-!
# A network withdrawn from all nodes

A clean-up visits the managed nodes one after the other (`clearEach`), whatever becomes of the visits before. A node
whose record is written is left without the network and without reservations (`Withdrawn`), one whose record is not
is left as it was, and nobody else notices (`Untouched`). One visit ends so (`clear_visited`), visits of different
nodes add up (`Visited.append`), and so a whole clean-up ends so: `cleanup_complete`.
-/

namespace HostSubnets

open HostSubnets.Task

namespace Reconciler

variable {σ : Type} {ops : StoreOps σ} {records : σ → Records} {r : Reconciler} {network name : String}
  {n m : Node} {nodes : List Node} {w w₁ w' : World σ}

/-! ## The record of a node -/

/-- Nothing of a network is left in a record, and all the rest is as it was. -/
structure Withdrawn (network : String) (n m : Node) : Prop where
  subnets : m.subnets? network = .ok none
  networkId : m.networkId? network = .ok none
  otherSubnets : ∀ other l, other ≠ network → n.subnets? other = .ok l → m.subnets? other = .ok l
  otherId : ∀ other id, other ≠ network → n.networkId? other = .ok id → m.networkId? other = .ok id
  annotations : ∀ name, name ≠ AnnotationKey.subnets.text → name ≠ AnnotationKey.networkIds.text →
    m.annotationAt? name = n.annotationAt? name
  rest : ∃ version annotations, m = { n with version, annotations }

theorem Written.withdrawn (h : Written (withdraw network) n m) : Withdrawn network n m := by
  obtain ⟨version, rfl⟩ := h
  -- The ids are set on top of the subnets.
  let between := n.changeAnnotations (TextMap.setSubnets network [])
  have hsubnets : ∀ other, Node.subnets? other { n.changeAnnotations (withdraw network) with version } =
      between.subnets? other := fun other => Node.subnets?_setNetworkId other network _ between
  have hbetween : ∀ other, between.networkId? other = n.networkId? other :=
    fun other => Node.networkId?_setSubnets other network [] n
  refine ⟨?_, ?_, fun other l hother hl => ?_, fun other id hother hid => ?_, fun name hname hname' => ?_,
    version, _, rfl⟩
  · rw [hsubnets]
    exact Node.subnets?_setSubnets network [] n
  · exact Node.networkId?_setNetworkId network (by decide) between
  · rw [hsubnets, Node.subnets?_setSubnets_of_ne hother, hl]
    rfl
  · refine (Node.networkId?_setNetworkId_of_ne hother _ between).trans ?_
    rw [hbetween, hid]
    rfl
  · refine (Node.annotationAt?_changeAnnotations_of_find? (TextMap.find?_setNetworkId_of_ne hname') between).trans ?_
    exact Node.annotationAt?_changeAnnotations_of_find? (TextMap.find?_setSubnets_of_ne hname) n

/-! ## Changes of a record -/

def Request.Performs (ops : StoreOps σ) (q : Request) (w : World σ) (reply : q.Reply) (w' : World σ) : Prop :=
  q.perform ops w = (reply, w')

/-- What is followed on the world itself holds of it after a run. -/
theorem runAlone_of_performs {α : Type} {inv : World σ → Prop} {post : α → World σ → Prop} {program : Program α}
    (h : program.Always (Request.Performs ops) inv post w) :
    post (program.runAlone ops w).1 (program.runAlone ops w).2 := by
  have hstep : ∀ (q : Request) (v w' : World σ), v = w' →
      ∃ w'', q.Performs ops w' (q.perform ops v).1 w'' ∧ (q.perform ops v).2 = w'' := by
    rintro q v _ rfl
    exact ⟨_, rfl, rfl⟩
  obtain ⟨w', rfl, hpost⟩ := h.run hstep rfl
  exact hpost

structure World.Kept (records : σ → Records) (w w' : World σ) : Prop where
  pools : ∀ which, w'.pool which = w.pool which
  store : records w'.store = records w.store

/-- How a change of a record ends: it is written, or everything is as before. -/
def Changed (records : σ → Records) (name : String) (change : TextMap → TextMap) (w : World σ) :
    Except ControlError Unit → World σ → Prop
  | .ok _, w' => (∀ which, w'.pool which = w.pool which) ∧ ∃ n m, (records w.store).find? name = some n ∧
      Written change n m ∧ records w'.store = (records w.store).insert n.key m
  | .error _, w' => w.Kept records w'

theorem World.Kept.refl (w : World σ) : w.Kept records w := ⟨fun _ => rfl, rfl⟩

theorem World.Kept.trans (h : w.Kept records w₁) (h' : w₁.Kept records w') : w.Kept records w' where
  pools := fun which => (h'.pools which).trans (h.pools which)
  store := h'.store.trans h.store

theorem pause_performs {delay : Duration} {jitter : Double} (hw : w.Kept records w₁) :
    (ask (.pause delay jitter) : Program Unit).Always (Request.Performs ops) (fun _ => True)
      (fun _ w' => w.Kept records w') w₁ := by
  intro reply w₂ hpause
  obtain ⟨-, rfl⟩ := Prod.mk.inj hpause
  exact ⟨trivial, fun which => (World.pool_figures which w₁ _ _).trans (hw.pools which), hw.store⟩

section Requests

variable (hops : ops.Retaining records)
include hops

theorem Request.Performs.get {reply : Except StoreError Node} (h : (Request.get name).Performs ops w reply w') :
    w.Kept records w' ∧ ∀ n, reply = .ok n → (records w.store).find? name = some n := by
  obtain ⟨rfl, rfl⟩ := Prod.mk.inj h
  exact ⟨⟨fun which => World.pool_withStore which w _, hops.get_records name w.store⟩,
    fun n hn => hops.get_ok name w.store n hn⟩

theorem Request.Performs.write_ok (h : (Request.write n).Performs ops w (.ok m) w') :
    (∀ which, w'.pool which = w.pool which) ∧ (∃ version, m = { n with version }) ∧
      records w'.store = (records w.store).insert n.key m := by
  obtain ⟨hreply, rfl⟩ := Prod.mk.inj h
  obtain ⟨hm, hafter⟩ := hops.write_ok n w.store m hreply
  exact ⟨fun which => World.pool_withStore which w _, hm, hafter⟩

theorem Request.Performs.write_error {e : StoreError} (h : (Request.write n).Performs ops w (.error e) w') :
    w.Kept records w' := by
  obtain ⟨hreply, rfl⟩ := Prod.mk.inj h
  exact ⟨fun which => World.pool_withStore which w _, hops.write_error n w.store e hreply⟩

theorem tryUpdate_performs {change : TextMap → TextMap} (hw : w.Kept records w₁) :
    (tryUpdate name (.ok ∘ change)).Always (Request.Performs ops) (fun _ => True)
      (fun result w' => Changed records name change w result w' ∧ ∀ e, result = .error e → w.Kept records w') w₁ := by
  unfold tryUpdate
  rw [always_bind]
  intro reply w₂ hget
  obtain ⟨hread, hfound⟩ := hget.get hops
  have hkept := hw.trans hread
  refine ⟨trivial, ?_⟩
  cases reply with
  | error e => exact ⟨hkept, fun _ _ => hkept⟩
  | ok n =>
    have hfind := hfound n rfl
    rw [hw.store] at hfind
    refine (always_bind _ _ _).2 ?_
    intro reply w₃ hwrite
    refine ⟨trivial, ?_⟩
    cases reply with
    | error e =>
      have hsame := hkept.trans (hwrite.write_error hops)
      exact ⟨hsame, fun _ _ => hsame⟩
    | ok m =>
      obtain ⟨hpools, hm, hafter⟩ := hwrite.write_ok hops
      rw [hkept.store] at hafter
      refine ⟨⟨fun which => (hpools which).trans (hkept.pools which), n, m, hfind, hm, hafter⟩, fun _ he => ?_⟩
      cases he

/-- **A change of a record is written, or nothing has happened.** -/
theorem update_runAlone (r : Reconciler) (name : String) (change : TextMap → TextMap) (w : World σ) :
    Changed records name change w ((r.update name (.ok ∘ change)).runAlone ops w).1
      ((r.update name (.ok ∘ change)).runAlone ops w).2 := by
  have halways : (r.update name (.ok ∘ change)).Always (Request.Performs ops) (fun _ => True)
      (Changed records name change w) w := by
    unfold update
    rw [always_bind]
    refine (retry_always (fun _ hw => tryUpdate_performs hops hw) (fun _ _ hw => pause_performs hw) (.refl w)).imp ?_
    intro result w' hresult
    cases result <;> exact hresult
  exact runAlone_of_performs halways

end Requests

/-! ## One visit -/

/-- Removes a network from one node, and gives back what it holds once its record is written. -/
def clear (r : Reconciler) (network name : String) : Program (Except ControlError Unit) :=
  r.update name (.ok ∘ withdraw network) >>= fun result =>
    match result with
    | .error e => pure (.error e)
    | .ok _ => askPool .cluster (.releaseAll name) >>= fun _ => pure (.ok ())

theorem clear_fst (r : Reconciler) (network name : String) (w : World σ) :
    ((r.clear network name).runAlone ops w).1 = ((r.update name (.ok ∘ withdraw network)).runAlone ops w).1 := by
  unfold clear
  rw [runAlone_bind]
  cases ((r.update name (.ok ∘ withdraw network)).runAlone ops w).1 <;> rfl

theorem World.Kept.untouched (h : w.Kept records w') (name : String) : w.Untouched records name w' where
  record := by rw [h.store]
  held := fun which => by rw [h.pools]

/-- What visits of some nodes, with these results, have changed. -/
structure Visited (records : σ → Records) (network : String) (visits : List (Node × Except ControlError Unit))
    (w w' : World σ) : Prop where
  succeeded : ∀ n, (n, .ok ()) ∈ visits → ∃ m, (records w'.store).find? n.key = some m ∧ Withdrawn network n m ∧
    w'.cluster.allocated n.key = []
  failed : ∀ n e, (n, .error e) ∈ visits → w.Untouched records n.key w'
  others : ∀ name, (∀ visit ∈ visits, visit.1.key ≠ name) → w.Untouched records name w'
  overlay : w'.overlay = w.overlay

/-- **A visit clears the node, or leaves it as it was.** -/
theorem clear_visited (hops : ops.Retaining records) (r : Reconciler) (network : String)
    (hfind : (records w.store).find? n.key = some n) :
    Visited records network [(n, ((r.clear network n.key).runAlone ops w).1)] w
      ((r.clear network n.key).runAlone ops w).2 := by
  have hupdate := update_runAlone hops r n.key (withdraw network) w
  unfold clear
  rw [runAlone_bind]
  generalize (r.update n.key (.ok ∘ withdraw network)).runAlone ops w = updated at hupdate
  obtain ⟨result, w₁⟩ := updated
  cases result with
  | error e =>
    have hkept : w.Kept records w₁ := hupdate
    refine ⟨fun _ hmem => ?_, fun _ _ _ => hkept.untouched _, fun _ _ => hkept.untouched _, hkept.pools .overlay⟩
    cases List.mem_singleton.1 hmem
  | ok _ =>
    obtain ⟨hpools, n', m, hfind', hwritten, hstore⟩ := hupdate
    obtain rfl : n = n' := Option.some.inj (hfind.symm.trans hfind')
    refine ⟨fun n' hmem => ?_, fun _ _ hmem => ?_, fun name hname => ⟨?_, fun which => ?_⟩, hpools .overlay⟩
    · obtain rfl : n' = n := congrArg Prod.fst (List.mem_singleton.1 hmem)
      refine ⟨m, ?_, hwritten.withdrawn, ?_⟩
      · show (records w₁.store).find? n'.key = some m
        rw [hstore, SortedMap.find?_insert, if_pos rfl]
      · exact (Pool.allocated_releaseAll n'.key n'.key _).trans (if_pos rfl)
    · cases List.mem_singleton.1 hmem
    · show (records w₁.store).find? name = _
      rw [hstore, SortedMap.find?_insert, if_neg (hname _ List.mem_cons_self).symm]
    · cases which with
      | cluster =>
        refine (Pool.allocated_releaseAll n.key name _).trans ?_
        rw [if_neg (hname _ List.mem_cons_self).symm]
        exact congrArg (Pool.allocated name) (hpools .cluster)
      | overlay => exact congrArg (Pool.allocated name) (hpools .overlay)

/-! ## All visits -/

def clearEach (r : Reconciler) (network : String) : List Node → Program (List (Node × Except ControlError Unit))
  | [] => pure []
  | n :: rest => r.clear network n.key >>= fun result =>
      r.clearEach network rest >>= fun visits => pure ((n, result) :: visits)

/-- The first failure of several results. -/
def firstFailure : List (Except ControlError Unit) → Except ControlError Unit
  | [] => .ok ()
  | .error e :: _ => .error e
  | .ok _ :: rest => firstFailure rest

theorem firstFailure_eq_ok_iff {results : List (Except ControlError Unit)} :
    firstFailure results = .ok () ↔ ∀ result ∈ results, result = .ok () := by
  induction results with
  | nil => simp [firstFailure]
  | cons result rest ih =>
    cases result with
    | error e => simp [firstFailure]
    | ok value => simp [firstFailure, ih]

theorem cleanupNodes_eq (r : Reconciler) (network : String) (failure : Option ControlError) (nodes : List Node) :
    r.cleanupNodes network failure nodes = r.clearEach network nodes >>= fun visits =>
      pure (failure.elim (firstFailure (visits.map Prod.snd)) .error) := by
  induction nodes generalizing failure with
  | nil => cases failure <;> rfl
  | cons n rest ih =>
    have hstep : ∀ (result : Except ControlError Unit) (failure' : Option ControlError),
        (∀ results, failure'.elim (firstFailure results) .error =
          failure.elim (firstFailure (result :: results)) .error) →
        r.cleanupNodes network failure' rest =
          (r.clearEach network rest >>= fun visits => pure ((n, result) :: visits)) >>= fun visits =>
            pure (failure.elim (firstFailure (visits.map Prod.snd)) .error) := by
      intro result failure' hfailure
      rw [ih, bind_assoc]
      exact congrArg (r.clearEach network rest >>= ·) (funext fun visits => congrArg pure (hfailure _))
    unfold cleanupNodes clearEach clear
    rw [bind_assoc, bind_assoc]
    refine congrArg (r.update n.key (.ok ∘ withdraw network) >>= ·) (funext fun result => ?_)
    cases result with
    | error e => exact hstep (.error e) _ fun results => by cases failure <;> rfl
    | ok value =>
      refine congrArg (askPool .cluster (.releaseAll n.key) >>= ·) (funext fun _ => ?_)
      exact hstep (.ok ()) failure fun results => rfl

/-- Every update starts by reading the record. -/
theorem get_mem_requests_update (r : Reconciler) (name : String) (change : TextMap → Except AnnotationError TextMap)
    (w : World σ) : Request.get name ∈ (r.update name change).requests (Request.perform ops) w := by
  unfold update retry
  cases r.backoff.steps - 1 <;> exact List.mem_cons_self

theorem get_mem_requests_clearEach (r : Reconciler) (network : String) (hn : n ∈ nodes) (w : World σ) :
    Request.get n.key ∈ (r.clearEach network nodes).requests (Request.perform ops) w := by
  induction nodes generalizing w with
  | nil => cases hn
  | cons first rest ih =>
    unfold clearEach
    rw [requests_bind, List.mem_append]
    rcases List.mem_cons.1 hn with rfl | hrest
    · refine Or.inl ?_
      unfold clear
      rw [requests_bind]
      exact List.mem_append_left _ (get_mem_requests_update r n.key _ w)
    · refine Or.inr ?_
      rw [requests_bind]
      exact List.mem_append_left _ (ih hrest _)

theorem Visited.append {visits visits' : List (Node × Except ControlError Unit)}
    (h : Visited records network visits w w₁) (h' : Visited records network visits' w₁ w')
    (hother : ∀ visit ∈ visits, ∀ visit' ∈ visits', visit'.1.key ≠ visit.1.key) :
    Visited records network (visits ++ visits') w w' where
  succeeded := by
    intro n hn
    rcases List.mem_append.1 hn with hbefore | hafter
    · obtain ⟨m, hm, hwithdrawn, hheld⟩ := h.succeeded n hbefore
      have hlater := h'.others n.key (hother _ hbefore)
      exact ⟨m, hlater.record.trans hm, hwithdrawn, (hlater.held .cluster).trans hheld⟩
    · exact h'.succeeded n hafter
  failed := by
    intro n e hn
    rcases List.mem_append.1 hn with hbefore | hafter
    · exact (h.failed n e hbefore).trans (h'.others n.key (hother _ hbefore))
    · exact (h.others n.key fun visit hvisit => (hother visit hvisit _ hafter).symm).trans (h'.failed n e hafter)
  others := by
    intro name hname
    exact (h.others name fun visit hvisit => hname visit (List.mem_append_left _ hvisit)).trans
      (h'.others name fun visit hvisit => hname visit (List.mem_append_right _ hvisit))
  overlay := h'.overlay.trans h.overlay

/-- Nothing has happened and nobody was visited. -/
theorem World.Kept.visited (h : w.Kept records w') : Visited records network [] w w' where
  succeeded := fun _ hn => by cases hn
  failed := fun _ _ hn => by cases hn
  others := fun name _ => h.untouched name
  overlay := h.pools .overlay

theorem clearEach_fst (r : Reconciler) (network : String) (nodes : List Node) (w : World σ) :
    ((r.clearEach network nodes).runAlone ops w).1.map Prod.fst = nodes := by
  induction nodes generalizing w with
  | nil => rfl
  | cons n rest ih =>
    unfold clearEach
    rw [runAlone_bind, runAlone_bind]
    exact congrArg (n :: ·) (ih _)

/-- Each of the nodes is cleared, or left as it was, and that only if the store refuses something. -/
theorem clearEach_visited (hops : ops.Retaining records) (r : Reconciler) (network : String)
    (hnodup : (nodes.map Node.key).Nodup) (hstored : ∀ n ∈ nodes, (records w.store).find? n.key = some n) :
    let run := (r.clearEach network nodes).runAlone ops w
    Visited records network run.1 w run.2 ∧ (ops.Accepting records → ∀ visit ∈ run.1, visit.2 = .ok ()) := by
  induction nodes generalizing w with
  | nil => exact ⟨(World.Kept.refl w).visited, fun _ => List.forall_mem_nil _⟩
  | cons n rest ih =>
    rw [List.map_cons, List.nodup_cons] at hnodup
    have hne : ∀ m ∈ rest, m.key ≠ n.key := fun m hm hkey => hnodup.1 (hkey ▸ List.mem_map_of_mem hm)
    have hfind := hstored n List.mem_cons_self
    have hfirst := clear_visited hops r network hfind
    have haccepted : ops.Accepting records → ((r.clear network n.key).runAlone ops w).1 = .ok () := fun haccept =>
      (clear_fst r network n.key w).trans (update_accepted hops haccept hfind rfl _)
    unfold clearEach
    rw [runAlone_bind, runAlone_bind]
    generalize (r.clear network n.key).runAlone ops w = cleared at hfirst haccepted
    have hstored' : ∀ m ∈ rest, (records cleared.2.store).find? m.key = some m := by
      intro m hm
      have hsame := hfirst.others m.key fun visit hvisit => by
        rw [List.mem_singleton.1 hvisit]
        exact (hne m hm).symm
      rw [hsame.record]
      exact hstored m (List.mem_cons_of_mem _ hm)
    have hvisited : ((r.clearEach network rest).runAlone ops cleared.2).1.map Prod.fst = rest :=
      clearEach_fst r network rest cleared.2
    obtain ⟨hlater, hall⟩ := ih hnodup.2 hstored'
    refine ⟨hfirst.append hlater fun visit hvisit visit' hvisit' => ?_, fun haccept => ?_⟩
    · rw [List.mem_singleton.1 hvisit]
      exact hne _ (hvisited ▸ List.mem_map_of_mem hvisit')
    · exact List.forall_mem_cons.2 ⟨haccepted haccept, hall haccept⟩

theorem matches?_managedSelector (n : Node) : Records.matches? managedSelector n = !n.isUnmanaged := by
  unfold managedSelector Node.isUnmanaged
  rw [Records.matches?_not, Option.not_isSome]

theorem cleanup_eq (r : Reconciler) (network : String) :
    r.cleanup network = ask (.list managedSelector) >>= fun reply =>
      match reply with
      | .error e => pure (.error (.store e))
      | .ok nodes => r.clearEach network (nodes.filter fun n => !n.isUnmanaged) >>= fun visits =>
        pure (firstFailure (visits.map Prod.snd)) := by
  refine congrArg (ask (.list managedSelector) >>= ·) (funext fun reply => ?_)
  cases reply with
  | error e => rfl
  | ok nodes => exact cleanupNodes_eq r network none _

section Listed

variable (h : (Request.list managedSelector).Performs ops w (.ok nodes) w₁)
include h

theorem cleanup_runAlone :
    (r.cleanup network).runAlone ops w =
      let visited := (r.clearEach network (nodes.filter fun n => !n.isUnmanaged)).runAlone ops w₁
      (firstFailure (visited.1.map Prod.snd), visited.2) := by
  rw [cleanup_eq, runAlone_bind]
  show Program.runAlone ops
    (match ((Request.list managedSelector).perform ops w).1 with | .error e => _ | .ok nodes => _)
    ((Request.list managedSelector).perform ops w).2 = _
  rw [h]
  exact runAlone_bind _ _ w₁

theorem cleanup_requests :
    (r.cleanup network).requests (Request.perform ops) w = .list managedSelector ::
      (r.clearEach network (nodes.filter fun n => !n.isUnmanaged)).requests (Request.perform ops) w₁ := by
  rw [cleanup_eq]
  refine congrArg (Request.list managedSelector :: ·) ?_
  show Task.requests _ (match ((Request.list managedSelector).perform ops w).1 with | .error e => _ | .ok nodes => _)
    ((Request.list managedSelector).perform ops w).2 = _
  rw [h]
  exact (requests_bind _ _ _ w₁).trans (List.append_nil _)

end Listed

theorem mem_managed_iff (hlists : ops.Lists records) (hkeyed : (records w.store).Keyed)
    (hlist : (ops.list managedSelector w.store).1 = .ok nodes) :
    n ∈ nodes.filter (fun n => !n.isUnmanaged) ↔
      (records w.store).find? n.key = some n ∧ n.isUnmanaged = false := by
  obtain ⟨hsub, hall⟩ := hlists managedSelector w.store nodes hlist
  rw [List.mem_filter, Bool.not_eq_true', ← hkeyed.mem_values_iff]
  refine and_congr_left fun hmanaged => ⟨fun hn => hsub.subset hn, fun hn => hall n hn ?_⟩
  rw [matches?_managedSelector, hmanaged]
  rfl

/-- **A clean-up is complete, and every node is on its own.** However reads and writes fail, each managed node is
attempted. One that is written is left without the network and without reservations, all else in its record being as
it was; one that is not written keeps both, and so do the nodes that are not managed. The first failure in the order
of the listing is reported, if there is one; a store that refuses nothing causes none. -/
theorem cleanup_complete (hops : ops.Retaining records) (hlists : ops.Lists records)
    (hkeyed : (records w.store).Keyed) (hlist : (ops.list managedSelector w.store).1 = .ok nodes) (r : Reconciler)
    (network : String) :
    let managed := nodes.filter fun n => !n.isUnmanaged
    let listed := { w with store := (ops.list managedSelector w.store).2 }
    let visits := ((r.clearEach network managed).runAlone ops listed).1
    let run := (r.cleanup network).runAlone ops w
    (∀ n, n ∈ managed ↔ (records w.store).find? n.key = some n ∧ n.isUnmanaged = false) ∧
      (∀ n ∈ managed, Request.get n.key ∈ (r.cleanup network).requests (Request.perform ops) w) ∧
      visits.map Prod.fst = managed ∧ Visited records network visits w run.2 ∧
      (∀ n, (records w.store).find? n.key = some n → n.isUnmanaged = true → w.Untouched records n.key run.2) ∧
      run.1 = firstFailure (visits.map Prod.snd) ∧ (run.1 = .ok () ↔ ∀ visit ∈ visits, visit.2 = .ok ()) ∧
      (ops.Accepting records → run.1 = .ok ()) := by
  intro managed listed visits run
  have hmanaged : ∀ n, n ∈ managed ↔ (records w.store).find? n.key = some n ∧ n.isUnmanaged = false :=
    fun n => mem_managed_iff hlists hkeyed hlist
  have hlisted : (Request.list managedSelector).Performs ops w (.ok nodes) listed := congrArg (·, listed) hlist
  have hrun : run = (firstFailure (visits.map Prod.snd), ((r.clearEach network managed).runAlone ops listed).2) :=
    cleanup_runAlone hlisted
  have hvisited : visits.map Prod.fst = managed := clearEach_fst r network managed listed
  have hkept : w.Kept records listed :=
    ⟨fun which => World.pool_withStore which w _, hops.list_records managedSelector w.store⟩
  have hstored : ∀ n ∈ managed, (records listed.store).find? n.key = some n := by
    intro n hn
    rw [hkept.store]
    exact ((hmanaged n).1 hn).1
  have hnodup : (managed.map Node.key).Nodup :=
    (hkeyed.nodup_keys_of_subperm (hlists managedSelector w.store nodes hlist).1).sublist
      (List.filter_sublist.map Node.key)
  obtain ⟨hlater, haccepted⟩ := clearEach_visited hops r network hnodup hstored
  have hvisits : Visited records network visits w run.2 := by
    rw [hrun]
    exact hkept.visited.append hlater (List.forall_mem_nil _)
  have hok : run.1 = .ok () ↔ ∀ visit ∈ visits, visit.2 = .ok () := by
    rw [hrun, firstFailure_eq_ok_iff, List.forall_mem_map]
  refine ⟨hmanaged, fun n hn => ?_, hvisited, hvisits, fun n hn hlabelled => ?_, by rw [hrun], hok,
    fun haccept => hok.2 (haccepted haccept)⟩
  · rw [cleanup_requests hlisted]
    exact List.mem_cons_of_mem _ (get_mem_requests_clearEach r network hn listed)
  · refine hvisits.others n.key fun visit hvisit hkey => ?_
    have hmem : visit.1 ∈ managed := hvisited ▸ List.mem_map_of_mem hvisit
    obtain ⟨hfind, hlabel⟩ := (hmanaged visit.1).1 hmem
    rw [hkey] at hfind
    obtain rfl := Option.some.inj (hfind.symm.trans hn)
    rw [hlabelled] at hlabel
    cases hlabel

/-- A node of two networks. -/
def twoNetworks : Node := (declaring "a" [lowerSubnet]).changeAnnotations (TextMap.setSubnets "red" [upperSubnet])

theorem key_twoNetworks : twoNetworks.key = "a" := rfl

/-- Beside it a node that declares a single subnet, one that cannot be read, and one that is not managed. Of the
writes the first one collides and the third one fails. -/
def mixedNodes : ScriptedStore.Refuser :=
  ⟨{ ScriptedStore.empty with
      records := Records.put twoNetworks (Records.put (declaring "b" [upperSubnet]) (Records.put (scrawling "c")
        (Records.put { declaring "d" [lowerSubnet] with
          labels := some (SortedMap.empty.insert Node.unmanagedLabel "") } .empty)))
      writeFaults := [.conflict, .pass, .server] }, by decide⟩

theorem mixedNodes_keyed : mixedNodes.1.records.Keyed :=
  (((Records.keyed_empty.put _).put (scrawling "c")).put (declaring "b" [upperSubnet])).put twoNetworks

/-- The first node is cleared of one of its networks and the third one of all; the second one keeps what it has. Where
no write is refused there is nothing to report. -/
theorem mixedNodes_cleaned :
    let failure : ControlError := .update "b" (.store (.api (.status 500 "Injected")))
    let w := sample.launch ScriptedStore.refuserOps mixedNodes.1.records.values mixedNodes
    let run := (sample.cleanup Network.defaultName).runAlone ScriptedStore.refuserOps w
    w.cluster.allocated "a" = [lowerSubnet] ∧ w.cluster.allocated "b" = [upperSubnet] ∧ run.1 = .error failure ∧
      run.2.cluster.allocated "a" = [] ∧ run.2.cluster.allocated "b" = [upperSubnet] ∧
        run.2.store.1.records.find? "b" = some (declaring "b" [upperSubnet]) ∧
          (∃ m, run.2.store.1.records.find? "a" = some m ∧ m.subnets? Network.defaultName = .ok none ∧
            m.subnets? "red" = .ok (some [upperSubnet])) ∧
          (∃ m, run.2.store.1.records.find? "c" = some m ∧ m.subnets? Network.defaultName = .ok none) ∧
      ((sample.cleanup Network.defaultName).runAlone Records.ops
        (sample.launch Records.ops mixedNodes.1.records.values mixedNodes.1.records)).1 = .ok () := by
  intro failure w run
  have hstore : w.store = mixedNodes := store_launch sample _ _ _
  have hkeyed : w.store.1.records.Keyed := by
    rw [hstore]
    exact mixedNodes_keyed
  have hlist : (ScriptedStore.refuserOps.list managedSelector w.store).1 =
      .ok (mixedNodes.1.records.select managedSelector) := by
    rw [hstore]
    rfl
  obtain ⟨visits, ⟨hfirst, hsecond, hthird⟩, hvisits⟩ : ∃ visits : List (Node × Except ControlError Unit),
      ((twoNetworks, .ok ()) ∈ visits ∧ (declaring "b" [upperSubnet], .error failure) ∈ visits ∧
        (scrawling "c", .ok ()) ∈ visits) ∧
      Visited (fun s : ScriptedStore.Refuser => s.1.records) Network.defaultName visits w run.2 :=
    ⟨_, by decide +kernel, (cleanup_complete ScriptedStore.faithful.retaining ScriptedStore.lists_records hkeyed hlist
      sample Network.defaultName).2.2.2.1⟩
  have hreported : run.1 = .error failure := by decide +kernel
  have hheld : w.cluster.allocated "a" = [lowerSubnet] ∧ w.cluster.allocated "b" = [upperSubnet] := by decide +kernel
  have hred : twoNetworks.subnets? "red" = .ok (some [upperSubnet]) := by decide +kernel
  have hb : mixedNodes.1.records.find? "b" = some (declaring "b" [upperSubnet]) := by decide +kernel
  obtain ⟨a, ha, hwithdrawn, hreleased⟩ := hvisits.succeeded twoNetworks hfirst
  obtain ⟨hrecord, hkept⟩ := hvisits.failed (declaring "b" [upperSubnet]) failure hsecond
  obtain ⟨c, hc, hwithdrawn', -⟩ := hvisits.succeeded (scrawling "c") hthird
  rw [key_twoNetworks] at ha hreleased
  rw [key_declaring] at hrecord
  rw [key_scrawling] at hc
  rw [hstore, hb] at hrecord
  have haccepted : ((sample.cleanup Network.defaultName).runAlone Records.ops
      (sample.launch Records.ops mixedNodes.1.records.values mixedNodes.1.records)).1 = .ok () := by
    have hkeyed' : (sample.launch Records.ops mixedNodes.1.records.values mixedNodes.1.records).store.Keyed := by
      rw [store_launch]
      exact mixedNodes_keyed
    exact (cleanup_complete Records.faithful.retaining Records.lists hkeyed' rfl sample
      Network.defaultName).2.2.2.2.2.2.2 Records.accepting
  refine ⟨hheld.1, hheld.2, hreported, hreleased, ?_, hrecord, ⟨a, ha, hwithdrawn.subnets, ?_⟩,
    ⟨c, hc, hwithdrawn'.subnets⟩, haccepted⟩
  · have hlist := hkept .cluster
    rw [key_declaring] at hlist
    exact hlist.trans hheld.2
  · exact hwithdrawn.otherSubnets "red" _ (by decide) hred

end Reconciler

end HostSubnets
