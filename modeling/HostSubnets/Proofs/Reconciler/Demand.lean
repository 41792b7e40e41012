import HostSubnets.Proofs.Pool.Choice
import HostSubnets.Proofs.Reconciler.Vanished
import HostSubnets.Proofs.Store.Retaining

/-!
# How a run for a present node ends

A run settles subnets in one pool (`Demand`), from those that its copy of the record declares. Alone on a world with
a record of the node it ends in one of four ways (`Outcome`): a family is starved, the settled subnets are shown by
the copy already, they are written, or their writing fails. `addOrUpdate_outcome` says what is held and recorded then.
-/

namespace HostSubnets

theorem Families.Serves.eq_singleton {l : List Cidr} (h : Families.onlyV4.Serves l) : ∃ s, l = [s] := by
  obtain ⟨⟨hnodup, hwanted⟩, hall⟩ := h
  obtain ⟨s, hs, -⟩ := hall .v4 rfl
  have hv4 : ∀ t ∈ l, t.family = .v4 := by
    intro t ht
    have hw := hwanted t ht
    cases hf : t.family with
    | v4 => rfl
    | v6 =>
      rw [hf] at hw
      cases hw
  refine ⟨s, List.perm_singleton.1 ((List.perm_ext_iff_of_nodup (hnodup.of_map _) (List.nodup_singleton s)).2 ?_)⟩
  intro t
  rw [List.mem_singleton]
  constructor
  · exact fun ht => List.inj_on_of_nodup_map hnodup ht hs ((hv4 t ht).trans (hv4 s hs).symm)
  · rintro rfl
    exact hs

namespace Reconciler

open HostSubnets.Task

variable {σ : Type} {ops : StoreOps σ} {records : σ → Records} {r : Reconciler} {n c : Node} {w : World σ}

/-! ## Demands -/

/-- A pool in which a node is to have a subnet of each family, and the subnets that its copy declares there. -/
structure Demand where
  pool : PoolName
  families : Families
  existing : List Cidr
deriving DecidableEq

/-- What a run for a node settles, if anything. -/
def demand? (r : Reconciler) (n : Node) : Option Demand :=
  if n.isUnmanaged then
    if r.servesInOverlay n then some ⟨.overlay, .onlyV4, declaredOverlay n⟩ else none
  else if r.network.perNode then some ⟨.cluster, r.network.families, r.declaredSubnets n⟩
  else none

theorem demand?_cases {d : Demand} (h : r.demand? n = some d) :
    (n.isUnmanaged = false ∧ r.network.perNode = true ∧ d = ⟨.cluster, r.network.families, r.declaredSubnets n⟩) ∨
      (n.isUnmanaged = true ∧ r.servesInOverlay n = true ∧ d = ⟨.overlay, .onlyV4, declaredOverlay n⟩) := by
  unfold demand? at h
  split at h
  · rename_i hn
    split at h
    · rename_i hserves
      exact Or.inr ⟨hn, hserves, (Option.some.inj h).symm⟩
    · cases h
  · rename_i hn
    split at h
    · rename_i hper
      exact Or.inl ⟨by simpa using hn, hper, (Option.some.inj h).symm⟩
    · cases h

theorem pool_of_demand? {d : Demand} (h : r.demand? n = some d) : d.pool = poolFor n := by
  rcases demand?_cases h with ⟨hn, -, rfl⟩ | ⟨hn, -, rfl⟩
  · rw [poolFor, hn, if_neg Bool.false_ne_true]
  · rw [poolFor, hn, if_pos rfl]

theorem demand?_managed (hn : n.isUnmanaged = false) (hper : r.network.perNode = true) :
    r.demand? n = some ⟨.cluster, r.network.families, r.declaredSubnets n⟩ := by
  unfold demand?
  rw [hn, hper]
  rfl

theorem demand?_overlay (hn : n.isUnmanaged = true) (hserves : r.servesInOverlay n = true) :
    r.demand? n = some ⟨.overlay, .onlyV4, declaredOverlay n⟩ := by
  unfold demand?
  rw [hn, hserves]
  rfl

theorem demand?_none_cases (h : r.demand? n = none) :
    (n.isUnmanaged = false ∧ r.network.perNode = false) ∨ (n.isUnmanaged = true ∧ r.servesInOverlay n = false) := by
  cases hn : n.isUnmanaged with
  | false =>
    refine Or.inl ⟨rfl, ?_⟩
    rw [← Bool.not_eq_true]
    intro hper
    cases (demand?_managed hn hper).symm.trans h
  | true =>
    refine Or.inr ⟨rfl, ?_⟩
    rw [← Bool.not_eq_true]
    intro hserves
    cases (demand?_overlay hn hserves).symm.trans h

theorem skipped_of_demand? (hper : r.network.perNode = true) (h : r.demand? n = none) :
    n.isUnmanaged = true ∧ r.servesInOverlay n = false := by
  rcases demand?_none_cases h with ⟨-, hshared⟩ | hskipped
  · rw [hper] at hshared
    cases hshared
  · exact hskipped

def finish (r : Reconciler) (n : Node) (held : List Cidr) (a : Pool.Assignment) : Program (Except ControlError Unit) :=
  match poolFor n with
  | .cluster => r.conclude n held (some a)
  | .overlay => r.concludeOverlay n held a

def afterLook (r : Reconciler) (n : Node) (d : Demand) (held : List Cidr) : Program (Except ControlError Unit) :=
  onPool d.pool (Pool.reconcile n.key d.existing d.families) >>= fun result =>
    match result with
    | .error e => pure (.error (.pool e))
    | .ok a => r.finish n held a

def settleAndFinish (r : Reconciler) (n : Node) (d : Demand) : Program (Except ControlError Unit) :=
  askPool d.pool (.allocated n.key) >>= r.afterLook n d

/-- **A run in terms of its demand.** -/
theorem addOrUpdate_eq {d : Demand} (h : r.demand? n = some d) :
    r.addOrUpdate n = r.settleAndFinish n d >>= r.thenRecord := by
  rcases demand?_cases h with ⟨hn, hper, rfl⟩ | ⟨hn, hserves, rfl⟩
  · have hpool : poolFor n = .cluster := by rw [poolFor, hn, if_neg Bool.false_ne_true]
    rw [addOrUpdate_managed hn, syncManaged_perNode hper]
    unfold settleAndFinish afterLook finish
    generalize poolFor n = pool at hpool ⊢
    subst hpool
    rfl
  · have hpool : poolFor n = .overlay := by rw [poolFor, hn, if_pos rfl]
    rw [addOrUpdate_overlay hn hserves, syncOverlay_eq]
    unfold settleAndFinish afterLook finish
    generalize poolFor n = pool at hpool ⊢
    subst hpool
    rfl

/-! ## Ends -/

/-- Whether the copy shows what was settled, so that nothing is written. -/
def Confirms (r : Reconciler) (n : Node) (a : Pool.Assignment) : Prop :=
  match poolFor n with
  | .cluster => r.Shows n a.subnets
  | .overlay => a.allocated = [] ∧ declaredOverlay n = a.subnets

/-- Whether the copy declares a subnet of each wanted family that the node stays with, once and nothing else, and for
the cluster the id of the network. -/
def Complete (r : Reconciler) (n : Node) (d : Demand) (p : Pool) : Prop :=
  (∀ f, d.families.wants f = true → (p.pick n.key d.existing f).isSome = true) ∧ d.existing.Nodup ∧
    (∀ s ∈ d.existing, p.Retains n.key d.families d.existing s) ∧
      (d.pool = .cluster → r.declaredId n = some r.network.id)

theorem differs_eq_false_iff {l existing : List Cidr} (hnodup : l.Nodup) :
    differs l existing = false ↔ l.Perm existing := by
  refine ⟨perm_of_differs hnodup, fun h => ?_⟩
  unfold differs
  rw [Bool.or_eq_false_iff, h.length_eq]
  refine ⟨by simp, List.any_eq_false.2 fun s hs => ?_⟩
  simp [h.mem_iff.1 hs]

/-- Settled subnets without a new one are the existing ones exactly if all of these are retained, each once. -/
theorem perm_existing_iff {p : Pool} {o : String} {families : Families} {existing : List Cidr} {a : Pool.Assignment}
    (ha : p.Fits o families existing a) :
    a.subnets.Perm existing ↔ (∀ f, families.wants f = true → (p.pick o existing f).isSome = true) ∧ existing.Nodup ∧
      ∀ s ∈ existing, p.Retains o families existing s := by
  rw [← ha.allocated_eq_nil_iff]
  constructor
  · intro hperm
    have hnone : a.allocated = [] := by
      rw [List.eq_nil_iff_forall_not_mem]
      intro s hs
      obtain ⟨hpick, husable⟩ := ha.untaken s hs
      have hmem : s ∈ existing := hperm.mem_iff.1 ((ha.mem_subnets s).2 (Or.inr hs))
      exact Pool.pick_eq_none_iff.1 hpick s hmem rfl husable
    refine ⟨hnone, hperm.nodup_iff.1 ha.serves.1.nodup, fun s hs => ?_⟩
    rcases (ha.mem_subnets s).1 (hperm.mem_iff.2 hs) with hretains | hnew
    · exact hretains
    · rw [hnone] at hnew
      cases hnew
  · rintro ⟨hnone, hnodup, hall⟩
    refine (List.perm_ext_iff_of_nodup ha.serves.1.nodup hnodup).2 fun s => ?_
    rw [ha.mem_subnets, hnone]
    simp only [List.not_mem_nil, or_false]
    exact ⟨fun h => h.mem, hall s⟩

theorem confirms_iff {d : Demand} {p : Pool} {a : Pool.Assignment} (hd : r.demand? n = some d)
    (ha : p.Fits n.key d.families d.existing a) : r.Confirms n a ↔ r.Complete n d p := by
  unfold Confirms Complete
  rw [← and_assoc, ← and_assoc, and_assoc (b := d.existing.Nodup), ← perm_existing_iff ha, ← pool_of_demand? hd]
  rcases demand?_cases hd with ⟨-, -, rfl⟩ | ⟨-, -, rfl⟩
  · unfold Shows
    rw [differs_eq_false_iff ha.serves.1.nodup]
    simp
  · obtain ⟨s, hs⟩ := ha.serves.eq_singleton
    constructor
    · rintro ⟨-, hshown⟩
      refine ⟨?_, fun h => by cases h⟩
      rw [← hshown]
    · rintro ⟨hperm, -⟩
      refine ⟨ha.allocated_eq_nil_iff.2 ((perm_existing_iff ha).1 hperm).1, ?_⟩
      rw [hs] at hperm ⊢
      exact List.perm_singleton.1 hperm.symm

theorem perm_of_confirms {d : Demand} {p : Pool} {a : Pool.Assignment} (hd : r.demand? n = some d)
    (ha : p.Fits n.key d.families d.existing a) (h : r.Confirms n a) : a.subnets.Perm d.existing := by
  have hcomplete := (confirms_iff hd ha).1 h
  exact (perm_existing_iff ha).2 ⟨hcomplete.1, hcomplete.2.1, hcomplete.2.2.1⟩

def entry (r : Reconciler) (which : PoolName) (subnets : List Cidr) (annotations : TextMap) : TextMap :=
  match which, subnets with
  | .cluster, _ => r.declare (some subnets) annotations
  | .overlay, subnet :: _ => annotations.setOverlaySubnet subnet
  | .overlay, [] => annotations

variable {d : Demand} {a : Pool.Assignment} {H B : Set Cidr}

/-- What the copy shows is not written. The record of a node that held nothing is looked for. -/
theorem finish_confirmed (hd : r.demand? n = some d) (hserves : d.families.Serves a.subnets)
    (hconfirms : r.Confirms n a) (held : List Cidr) :
    r.finish n held a =
      (if held = [] ∧ a.subnets ≠ [] then releaseVanished d.pool n.key else pure ()) >>= fun _ => pure (.ok ()) := by
  unfold finish
  unfold Confirms at hconfirms
  rw [← pool_of_demand? hd] at hconfirms ⊢
  rcases demand?_cases hd with ⟨-, -, rfl⟩ | ⟨-, -, rfl⟩
  · dsimp only [conclude] at hconfirms ⊢
    simp only [Option.map_some, Option.any_some, decide_eq_true_eq]
    rw [if_pos (by simpa [Shows] using hconfirms)]
  · obtain ⟨s, hs⟩ := hserves.eq_singleton
    dsimp only [concludeOverlay] at hconfirms ⊢
    rw [hs] at hconfirms ⊢
    dsimp only
    rw [if_pos hconfirms]
    simp only [ne_eq, List.cons_ne_nil, not_false_eq_true, and_true]

theorem finish_unconfirmed (hd : r.demand? n = some d) (hserves : d.families.Serves a.subnets)
    (hother : ¬ r.Confirms n a) (held : List Cidr) :
    r.finish n held a = r.writeOrUndo d.pool n.key (r.entry d.pool a.subnets) a.allocated := by
  unfold finish
  unfold Confirms at hother
  rw [← pool_of_demand? hd] at hother ⊢
  rcases demand?_cases hd with ⟨-, -, rfl⟩ | ⟨-, -, rfl⟩
  · dsimp only [conclude] at hother ⊢
    simp only [Option.map_some, Option.any_some, Option.getD_some]
    rw [if_neg (by simpa [Shows] using hother)]
    rfl
  · obtain ⟨s, hs⟩ := hserves.eq_singleton
    dsimp only [concludeOverlay] at hother ⊢
    rw [hs] at hother ⊢
    dsimp only
    rw [if_neg hother]
    rfl

theorem finish_always (hd : r.demand? n = some d) (held : List Cidr) (hc : c.key = n.key)
    (hserves : d.families.Serves a.subnets) (hH : ∀ s, s ∈ H ↔ s ∈ B ∨ s ∈ a.allocated)
    (hnew : ∀ s ∈ a.allocated, s ∉ B) :
    (r.finish n held a).Always (Request.Seen d.pool n.key) (fun _ => True)
      (fun result v => (r.Confirms n a ∧ result = .ok () ∧ v = ⟨H, some c⟩) ∨
        (¬ r.Confirms n a ∧ Recorded (r.entry d.pool a.subnets) c H B result v)) ⟨H, some c⟩ := by
  by_cases hconfirms : r.Confirms n a
  · rw [finish_confirmed hd hserves hconfirms, always_bind]
    split
    · refine (releaseVanished_always d.pool trivial).imp ?_
      rintro _ v rfl
      exact Or.inl ⟨hconfirms, rfl, rfl⟩
    · exact Or.inl ⟨hconfirms, rfl, rfl⟩
  · rw [finish_unconfirmed hd hserves hconfirms]
    refine (writeOrUndo_always r hc hH hnew trivial trivial fun _ _ => trivial).imp fun result v hv => ?_
    exact Or.inr ⟨hconfirms, hv⟩

theorem finish_of_confirms (hd : r.demand? n = some d) {held : List Cidr} (hheld : held ≠ [])
    (hserves : d.families.Serves a.subnets) (hconfirms : r.Confirms n a) : r.finish n held a = pure (.ok ()) := by
  rw [finish_confirmed hd hserves hconfirms, if_neg fun h => hheld h.1]
  rfl

/-! ## Stores that accept -/

theorem run_retry_of_ok {handle : (q : Request) → World σ → q.Reply × World σ} {backoff : Backoff} {α ε : Type}
    {retryable : ε → Bool} {pause : Duration → Program Unit} {attempt : Program (Except ε α)} {value : α}
    (h : (attempt.run handle w).1 = .ok value) :
    ((retry backoff retryable pause attempt).run handle w).1 = .ok value := by
  unfold retry
  cases backoff.steps - 1 with
  | zero => exact h
  | succ retries =>
    unfold retryFrom
    rw [run_seq, h]
    rfl

theorem update_accepted (hops : ops.Retaining records) (haccept : ops.Accepting records)
    (hc : (records w.store).find? n.key = some c) (hkey : c.key = n.key) (change : TextMap → TextMap) :
    ((r.update n.key (.ok ∘ change)).runAlone ops w).1 = .ok () := by
  have hget := haccept.get_present n.key w.store c hc
  have hafter : (records (ops.get n.key w.store).2).find? (c.changeAnnotations change).key = some c := by
    rw [hops.get_records, Node.key_changeAnnotations, hkey]
    exact hc
  obtain ⟨m, hm⟩ := haccept.write_current (c.changeAnnotations change) _ c hafter rfl
  let w' : World σ := { w with store := (ops.get n.key w.store).2 }
  have hread : (ask (.get n.key)).run (Request.perform ops) w = (.ok c, w') := Prod.ext hget rfl
  have hwrite : ((ask (.write { c with annotations := some (change (c.annotations.getD .empty)) })).run
      (Request.perform ops) w').1 = .ok m := hm
  have hattempt : ((tryUpdate n.key (.ok ∘ change)).run (Request.perform ops) w).1 = .ok () := by
    unfold tryUpdate
    rw [run_seq, hread]
    dsimp only [Function.comp_apply]
    rw [run_seq, hwrite]
    rfl
  unfold update
  rw [runAlone_bind]
  unfold Program.runAlone
  rw [run_retry_of_ok hattempt]
  rfl

theorem finish_accepted (hops : ops.Faithful records) (haccept : ops.Accepting records)
    (hc : (records w.store).find? n.key = some c) (hkey : c.key = n.key) (held : List Cidr) (a : Pool.Assignment) :
    ((r.finish n held a).runAlone ops w).1 = .ok () := by
  have hwrite : ∀ (which : PoolName) (change : TextMap → TextMap) (allocated : List Cidr),
      ((r.writeOrUndo which n.key change allocated).runAlone ops w).1 = .ok () := by
    intro which change allocated
    unfold writeOrUndo
    rw [runAlone_bind, update_accepted hops.retaining haccept hc hkey]
    rfl
  have hconfirm : ∀ first : Program Unit,
      (Program.runAlone ops (first >>= fun _ => pure (.ok ()) : Program (Except ControlError Unit)) w).1 = .ok () := by
    intro first
    rw [runAlone_bind]
    rfl
  unfold finish
  split
  · unfold conclude
    dsimp only
    split
    · exact hconfirm _
    · exact hwrite _ _ _
  · unfold concludeOverlay
    split
    · rfl
    · split
      · exact hconfirm _
      · exact hwrite _ _ _

/-! ## Runs -/

/-- The ways in which a run for a node with the record `c` can end, with what the node then sees of the pool that was
`p` before. -/
inductive Outcome (r : Reconciler) (n : Node) (d : Demand) (p : Pool) (c : Node) (accepting : Prop) :
    Except ControlError Unit → View → Prop where
  | starved {e : ControlError} (h : p.Starved n.key d.families d.existing) :
      Outcome r n d p c accepting (.error e) ⟨p.remains n.key d.families d.existing, some c⟩
  | unwritten {e : ControlError} {a : Pool.Assignment} (h : ¬ p.Starved n.key d.families d.existing)
      (ha : p.Settles n.key d.families d.existing a) (hother : ¬ r.Confirms n a) (hrefused : ¬ accepting) :
      Outcome r n d p c accepting (.error e) ⟨p.remains n.key d.families d.existing, some c⟩
  | confirmed {a : Pool.Assignment} (h : ¬ p.Starved n.key d.families d.existing)
      (ha : p.Settles n.key d.families d.existing a) (hsame : r.Confirms n a) :
      Outcome r n d p c accepting (.ok ()) ⟨{s | s ∈ p.remains n.key d.families d.existing ∨ s ∈ a.allocated}, some c⟩
  | written {a : Pool.Assignment} {m : Node} (h : ¬ p.Starved n.key d.families d.existing)
      (ha : p.Settles n.key d.families d.existing a) (hother : ¬ r.Confirms n a)
      (hm : Written (r.entry d.pool a.subnets) c m) :
      Outcome r n d p c accepting (.ok ()) ⟨{s | s ∈ p.remains n.key d.families d.existing ∨ s ∈ a.allocated}, some m⟩

theorem view_setPool (which : PoolName) (name : String) (p : Pool) (w : World σ) :
    (w.setPool which p).view records which name = ⟨p.heldBy name, (records w.store).find? name⟩ := by
  unfold World.view
  rw [World.pool_setPool, if_pos rfl, World.store_setPool]

theorem settle_outcome (hops : ops.Faithful records) (hw : w.Sound records) (hd : r.demand? n = some d)
    (hc : (records w.store).find? n.key = some c) :
    r.Outcome n d (w.pool d.pool) c (ops.Accepting records) ((r.settleAndFinish n d).runAlone ops w).1
      (((r.settleAndFinish n d).runAlone ops w).2.view records d.pool n.key) := by
  have hkey : c.key = n.key := hw.keyed n.key c hc
  have hlook : (Pool.Request.allocated n.key).perform (w.pool d.pool) =
      ((w.pool d.pool).allocated n.key, w.pool d.pool) := rfl
  have hreconcile := Pool.reconcile_settles (hw.pools d.pool) n.key d.families d.existing
  have hsound := Sound.runAlone hops hw (onPool d.pool (Pool.reconcile n.key d.existing d.families))
  unfold settleAndFinish afterLook
  rw [runAlone_askPool, hlook, setPool_pool, runAlone_bind]
  rw [runAlone_onPool] at hsound ⊢
  generalize (Pool.reconcile n.key d.existing d.families).runAlone (w.pool d.pool) = run at hreconcile hsound ⊢
  obtain ⟨result, q⟩ := run
  dsimp only at hreconcile hsound ⊢
  obtain ⟨-, hresult⟩ := hreconcile
  have hview : (w.setPool d.pool q).view records d.pool n.key = ⟨q.heldBy n.key, some c⟩ := by rw [view_setPool, hc]
  cases result with
  | error e =>
    obtain ⟨hstarved, hheld⟩ := hresult
    show r.Outcome n d _ c _ (.error (.pool e)) ((w.setPool d.pool q).view records d.pool n.key)
    rw [hview, hheld]
    exact .starved hstarved
  | ok a =>
    obtain ⟨hstarved, ha, hheld⟩ := hresult
    have hfinish := finish_always hd ((w.pool d.pool).allocated n.key) hkey ha.serves hheld fun s hs => ha.not_remains hs
    rw [← hview] at hfinish
    have hend := runAlone_of_always hops hsound hfinish
    have haccepted : ops.Accepting records →
        ((r.finish n ((w.pool d.pool).allocated n.key) a).runAlone ops (w.setPool d.pool q)).1 = .ok () := by
      intro haccept
      refine finish_accepted hops haccept ?_ hkey _ a
      rw [World.store_setPool]
      exact hc
    have hset : q.heldBy n.key =
        {s | s ∈ (w.pool d.pool).remains n.key d.families d.existing ∨ s ∈ a.allocated} := Set.ext hheld
    rw [hview, hset] at hend
    generalize (r.finish n ((w.pool d.pool).allocated n.key) a).runAlone ops (w.setPool d.pool q) = last at hend haccepted
    obtain ⟨result, w'⟩ := last
    dsimp only at hend haccepted ⊢
    rcases hend with ⟨hsame, rfl, hv⟩ | ⟨hother, hrecorded⟩
    · rw [hv]
      exact .confirmed hstarved ha hsame
    · cases result with
      | error e =>
        rw [show World.view records d.pool n.key w' = _ from hrecorded]
        exact .unwritten hstarved ha hother fun haccept => by cases haccepted haccept
      | ok _ =>
        obtain ⟨m, hm, hv⟩ := hrecorded
        rw [hv]
        exact .written hstarved ha hother hm

/-- **Every run for a present node ends in one of these ways.** -/
theorem addOrUpdate_outcome (hops : ops.Faithful records) (hw : w.Sound records) (hd : r.demand? n = some d)
    (hc : (records w.store).find? n.key = some c) :
    r.Outcome n d (w.pool d.pool) c (ops.Accepting records) ((r.addOrUpdate n).runAlone ops w).1
      (((r.addOrUpdate n).runAlone ops w).2.view records d.pool n.key) := by
  rw [addOrUpdate_eq hd, runAlone_bind]
  have hsettled := settle_outcome hops hw hd hc
  have hsound := Sound.runAlone hops hw (r.settleAndFinish n d)
  generalize (r.settleAndFinish n d).runAlone ops w = run at hsettled hsound
  obtain ⟨result, w'⟩ := run
  obtain ⟨hresult, hview⟩ := runAlone_thenRecord (r := r) hops hsound result d.pool n.key
  rw [hresult, hview]
  exact hsettled

end Reconciler

end HostSubnets
