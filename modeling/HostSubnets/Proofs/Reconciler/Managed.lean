import HostSubnets.Proofs.Node.Annotations
import HostSubnets.Proofs.Pool.Reconcile
import HostSubnets.Proofs.Reconciler.View
import HostSubnets.Reconciler.Basic

/-!
# A managed node brought to its subnets

`syncManaged_always` : what the node sees of its own cluster subnets and record, from any copy of the record and
with any failures of the store. Nothing is written or one record that declares what is held, and what was reserved
for a write that failed is given back. The subnets of the record that the copy does not contend for are held
throughout.
-/

namespace HostSubnets

open HostSubnets.Task

/-! ## Repeated attempts -/

section Retry

variable {Request : Type} {Reply : Request → Type} {σ ε α : Type}
  {step : (q : Request) → σ → Reply q → σ → Prop} {inv : σ → Prop}

/-- A failure leaves everything as it was. -/
def OrUnchanged (good : α → σ → Prop) (bad : ε → Prop) (s : σ) : Except ε α → σ → Prop
  | .ok value, s' => good value s'
  | .error e, s' => s' = s ∧ bad e

/-- Attempts from states that satisfy `P`, which a failure and a pause keep. -/
theorem retry_always {P : σ → Prop} {post : Except ε α → σ → Prop} {s : σ} {backoff : Backoff} {retryable : ε → Bool}
    {pause : Duration → Task Request Reply Unit} {attempt : Task Request Reply (Except ε α)}
    (hattempt : ∀ s, P s → attempt.Always step inv (fun result s' => post result s' ∧ ∀ e, result = .error e → P s') s)
    (hpause : ∀ delay s, P s → (pause delay).Always step inv (fun _ s' => P s') s) (hs : P s) :
    (retry backoff retryable pause attempt).Always step inv post s := by
  unfold retry
  generalize backoff.steps - 1 = retries
  generalize backoff.duration = delay
  induction retries generalizing delay s with
  | zero => exact (hattempt s hs).imp fun _ _ h => h.1
  | succ retries ih =>
    unfold retryFrom
    rw [always_bind]
    refine (hattempt s hs).imp fun result s' hs' => ?_
    cases result with
    | ok value => exact hs'.1
    | error e =>
      dsimp only
      split
      · rw [always_bind]
        exact (hpause delay s' (hs'.2 e rfl)).imp fun _ s'' hs'' => ih hs'' _
      · exact hs'.1

theorem retry_unchanged {good : α → σ → Prop} {bad : ε → Prop} {s : σ} {backoff : Backoff} {retryable : ε → Bool}
    {pause : Duration → Task Request Reply Unit} {attempt : Task Request Reply (Except ε α)}
    (hattempt : attempt.Always step inv (OrUnchanged good bad s) s)
    (hpause : ∀ delay, (pause delay).Always step inv (fun _ s' => s' = s) s) :
    (retry backoff retryable pause attempt).Always step inv (OrUnchanged good bad s) s := by
  refine retry_always (P := (· = s)) ?_ ?_ rfl
  · rintro _ rfl
    refine hattempt.imp fun result s' hs' => ⟨hs', ?_⟩
    rintro e rfl
    exact hs'.1
  · rintro delay _ rfl
    exact hpause delay

theorem retry_only {p : Request → Prop} {ok : (q : Request) → Reply q → Prop} {backoff : Backoff} {retryable : ε → Bool}
    {pause : Duration → Task Request Reply Unit} {attempt : Task Request Reply (Except ε α)}
    (hattempt : attempt.Only p ok) (hpause : ∀ delay, (pause delay).Only p ok) :
    (retry backoff retryable pause attempt).Only p ok := by
  unfold retry
  generalize backoff.steps - 1 = retries
  generalize backoff.duration = delay
  induction retries generalizing delay with
  | zero => exact hattempt
  | succ retries ih =>
    unfold retryFrom
    refine only_bind hattempt fun result => ?_
    cases result with
    | ok value => exact only_pure _
    | error e =>
      dsimp only
      split
      · exact only_bind (hpause delay) fun _ => ih _
      · exact only_pure _

end Retry

namespace Reconciler

variable {which : PoolName} {name : String} {inv : View → Prop}

/-! ## Writing -/

theorem eq_false_of_imp_none {b : Bool} {n : Node} (h : b = true → some n = none) : b = false := by
  cases b with
  | false => rfl
  | true => cases h rfl

def Written (change : TextMap → TextMap) (n m : Node) : Prop :=
  ∃ version, m = { n.changeAnnotations change with version }

theorem tryUpdate_always {n : Node} {H : Set Cidr} {change : TextMap → TextMap} (hn : n.key = name)
    (hinv : inv ⟨H, some n⟩) (hwritten : ∀ m, Written change n m → inv ⟨H, some m⟩) :
    (tryUpdate name (.ok ∘ change)).Always (Request.Seen which name) inv
      (OrUnchanged (fun _ v => ∃ m, Written change n m ∧ v = ⟨H, some m⟩) (fun e => e.isNotFound = false)
        ⟨H, some n⟩) ⟨H, some n⟩ := by
  unfold tryUpdate
  rw [always_bind]
  intro reply v hstep
  cases reply with
  | error e =>
    obtain ⟨rfl, he⟩ := hstep
    exact ⟨hinv, rfl, eq_false_of_imp_none (he rfl)⟩
  | ok current =>
    obtain ⟨rfl, hcurrent⟩ := hstep
    obtain rfl : n = current := Option.some.inj (hcurrent rfl)
    refine ⟨hinv, (always_bind _ _ _).2 ?_⟩
    intro reply v hstep
    cases reply with
    | error e =>
      obtain ⟨rfl, he⟩ := hstep
      exact ⟨hinv, rfl, eq_false_of_imp_none (he hn)⟩
    | ok m =>
      obtain ⟨-, hm, rfl⟩ := (if_pos hn).mp hstep
      exact ⟨hwritten m hm, m, hm, rfl⟩

theorem update_always (r : Reconciler) {n : Node} {H : Set Cidr} {change : TextMap → TextMap}
    (hn : n.key = name) (hinv : inv ⟨H, some n⟩) (hwritten : ∀ m, Written change n m → inv ⟨H, some m⟩) :
    (r.update name (.ok ∘ change)).Always (Request.Seen which name) inv
      (OrUnchanged (fun _ v => ∃ m, Written change n m ∧ v = ⟨H, some m⟩) (fun e => e.isNotFound = false)
        ⟨H, some n⟩) ⟨H, some n⟩ := by
  unfold update
  rw [always_bind]
  refine (retry_unchanged (tryUpdate_always hn hinv hwritten) fun delay => ?_).imp fun result v hv => ?_
  · intro reply v hstep
    obtain rfl : v = ⟨H, some n⟩ := hstep
    exact ⟨hinv, rfl⟩
  · cases result with
    | ok _ => exact hv
    | error e => exact hv

theorem releaseVanished_always (x : PoolName) {n : Node} {H : Set Cidr} (hinv : inv ⟨H, some n⟩) :
    (releaseVanished x name).Always (Request.Seen which name) inv (fun _ v => v = ⟨H, some n⟩)
      ⟨H, some n⟩ := by
  unfold releaseVanished
  rw [always_bind]
  intro reply v hstep
  cases reply with
  | ok m =>
    obtain ⟨rfl, -⟩ := hstep
    exact ⟨hinv, rfl⟩
  | error e =>
    obtain ⟨rfl, he⟩ := hstep
    refine ⟨hinv, ?_⟩
    have hfound : e.isNotFound = false := eq_false_of_imp_none (he rfl)
    change Always _ _ _ (if e.isNotFound = true then _ else pure ()) _
    rw [hfound]
    exact rfl

theorem undo_eq (x : PoolName) (name : String) (allocated : List Cidr) (e : ControlError) :
    undo x name allocated e =
      (if allocated ≠ [] then askPool x (.release name allocated) >>= fun _ => pure () else pure ()) >>= fun _ =>
        if e.isNotFound = true then askPool x (.releaseAll name) >>= fun _ => pure () else pure () := by
  unfold undo
  split <;> split <;> rfl

theorem undo_always {H B : Set Cidr} {record : Option Node} {allocated : List Cidr} {e : ControlError}
    (he : e.isNotFound = false) (hB : ∀ s, s ∈ H ↔ s ∈ B ∨ s ∈ allocated) (hnew : ∀ s ∈ allocated, s ∉ B)
    (hinv : inv ⟨B, record⟩) :
    (undo which name allocated e).Always (Request.Seen which name) inv (fun _ v => v = ⟨B, record⟩)
      ⟨H, record⟩ := by
  rw [undo_eq, he, if_neg Bool.false_ne_true, always_bind]
  split
  · rw [always_bind]
    intro reply v hstep
    obtain ⟨hheld, hrecord⟩ := Request.seen_pool_self.1 hstep
    have hv : v = ⟨B, record⟩ := by
      refine View.ext ?_ hrecord
      refine hheld.trans ((if_pos rfl).trans ?_)
      ext s
      have := hnew s
      rw [Set.mem_ofPred_eq, hB]
      tauto
    subst hv
    exact ⟨hinv, rfl⟩
  · rename_i hnone
    rw [ne_eq, not_not] at hnone
    subst hnone
    obtain rfl : H = B := by
      ext s
      simpa using hB s
    exact rfl

/-- How a write ends for a node that holds `H` by then, and held `B` without what was reserved for it. -/
def Recorded (change : TextMap → TextMap) (c : Node) (H B : Set Cidr) (result : Except ControlError Unit) (v : View) :
    Prop :=
  match result with
  | .ok _ => ∃ m, Written change c m ∧ v = ⟨H, some m⟩
  | .error _ => v = ⟨B, some c⟩

def writeOrUndo (r : Reconciler) (which : PoolName) (name : String) (change : TextMap → TextMap)
    (allocated : List Cidr) : Program (Except ControlError Unit) :=
  r.update name (.ok ∘ change) >>= fun result =>
    match result with
    | .ok _ => pure (.ok ())
    | .error e => undo which name allocated e >>= fun _ => pure (.error e)

theorem writeOrUndo_always (r : Reconciler) {c : Node} {H B : Set Cidr} {allocated : List Cidr}
    {change : TextMap → TextMap} (hc : c.key = name) (hH : ∀ s, s ∈ H ↔ s ∈ B ∨ s ∈ allocated)
    (hnew : ∀ s ∈ allocated, s ∉ B) (hinv : inv ⟨H, some c⟩) (hback : inv ⟨B, some c⟩)
    (hwritten : ∀ m, Written change c m → inv ⟨H, some m⟩) :
    (r.writeOrUndo which name change allocated).Always (Request.Seen which name) inv (Recorded change c H B)
      ⟨H, some c⟩ := by
  unfold writeOrUndo
  rw [always_bind]
  refine (update_always r hc hinv hwritten).imp ?_
  rintro (e | _) v hv
  · obtain ⟨rfl, he⟩ := hv
    refine (always_bind _ _ _).2 ((undo_always he hH hnew hback).imp ?_)
    rintro _ v rfl
    exact rfl
  · exact hv

/-! ## One managed node -/

/-- What follows once the subnets of a node are settled: its record is confirmed, or written. -/
def conclude (r : Reconciler) (n : Node) (held : List Cidr) (settled : Option Pool.Assignment) :
    Program (Except ControlError Unit) :=
  let subnets := settled.map (·.subnets)
  if !subnets.any (differs · (r.declaredSubnets n)) && r.declaredId n == some r.network.id then
    (if held = [] ∧ subnets.any (· ≠ []) then releaseVanished .cluster n.key else pure ()) >>= fun _ => pure (.ok ())
  else
    r.update n.key (.ok ∘ r.declare subnets) >>= fun result =>
      match result with
      | .ok _ => pure (.ok ())
      | .error e => undo .cluster n.key ((settled.map (·.allocated)).getD []) e >>= fun _ => pure (.error e)

variable {r : Reconciler}

theorem syncManaged_eq (n : Node) :
    r.syncManaged n = askPool .cluster (.allocated n.key) >>= fun held =>
      r.settle n.key (r.declaredSubnets n) >>= fun result =>
        match result with
        | .error e => pure (.error e)
        | .ok settled => r.conclude n held settled := by
  refine congrArg (askPool .cluster (.allocated n.key) >>= ·) (funext fun held => ?_)
  refine congrArg (r.settle n.key (r.declaredSubnets n) >>= ·) (funext fun result => ?_)
  cases result with
  | error e => rfl
  | ok settled =>
    dsimp only [conclude]
    split
    · split <;> rfl
    · rfl

theorem settle_perNode (hper : r.network.perNode = true) (name : String) (existing : List Cidr) :
    r.settle name existing = onPool .cluster (Pool.reconcile name existing r.network.families) >>= fun result =>
      match result with
      | .error e => pure (.error (.pool e))
      | .ok a => pure (.ok (some a)) := by
  unfold settle
  exact if_pos hper

theorem syncManaged_shared (hper : r.network.perNode = false) (n : Node) :
    r.syncManaged n = askPool .cluster (.allocated n.key) >>= fun held => r.conclude n held none := by
  have hsettle : r.settle n.key (r.declaredSubnets n) = pure (.ok none) := by
    unfold settle
    rw [hper]
    rfl
  rw [syncManaged_eq, hsettle]
  rfl

theorem syncManaged_perNode (hper : r.network.perNode = true) (n : Node) :
    r.syncManaged n = askPool .cluster (.allocated n.key) >>= fun held =>
      onPool .cluster (Pool.reconcile n.key (r.declaredSubnets n) r.network.families) >>= fun result =>
        match result with
        | .error e => pure (.error (.pool e))
        | .ok a => r.conclude n held (some a) := by
  rw [syncManaged_eq, settle_perNode hper]
  refine congrArg _ (funext fun held => ?_)
  rw [Task.bind_assoc]
  refine congrArg _ (funext fun result => ?_)
  cases result <;> rfl

def thenRecord (r : Reconciler) (result : Except ControlError Unit) : Program (Except ControlError Unit) :=
  match result with
  | .error e => pure (.error e)
  | .ok _ => r.recordCapacity >>= fun _ => pure (.ok ())

theorem addOrUpdate_managed {n : Node} (hn : n.isUnmanaged = false) :
    r.addOrUpdate n = r.syncManaged n >>= r.thenRecord := by
  unfold addOrUpdate
  rw [hn]
  rfl

theorem addOrUpdate_overlay {n : Node} (hn : n.isUnmanaged = true) (hserves : r.servesInOverlay n = true) :
    r.addOrUpdate n = r.syncOverlay n >>= r.thenRecord := by
  unfold addOrUpdate
  rw [hn, hserves]
  rfl

theorem addOrUpdate_skipped {n : Node} (hn : n.isUnmanaged = true) (hserves : r.servesInOverlay n = false) :
    r.addOrUpdate n = r.thenRecord (.ok ()) := by
  unfold addOrUpdate
  rw [hn, hserves]
  rfl

theorem declaredSubnets_written {l : List Cidr} {n m : Node} (h : Written (r.declare (some l)) n m) :
    r.declaredSubnets m = l := by
  obtain ⟨version, rfl⟩ := h
  have hread : Node.subnets? r.network.name { n.changeAnnotations (r.declare (some l)) with version } =
      .ok (if l = [] then none else some l) :=
    (Node.subnets?_setNetworkId r.network.name r.network.name r.network.id
      (n.changeAnnotations (TextMap.setSubnets r.network.name l))).trans (Node.subnets?_setSubnets _ _ _)
  unfold declaredSubnets
  rw [hread]
  split
  · rename_i hl
    split at hl
    · cases hl
    · exact (Option.some.inj (Except.ok.inj hl)).symm
  · rename_i hno
    by_contra hl
    exact hno l (by rw [if_neg fun hnil => hl hnil.symm])

theorem isUnmanaged_written {change : TextMap → TextMap} {n m : Node} (h : Written change n m) :
    m.isUnmanaged = n.isUnmanaged := by
  obtain ⟨version, rfl⟩ := h
  rfl

/-- What a node with the record `c`, whose copy declares `E`, sees after an attempt to bring it to its subnets. -/
def Synced (r : Reconciler) (E : List Cidr) (c : Node) (H : Set Cidr) (result : Except ControlError Unit)
    (v : View) : Prop :=
  match result with
  | .error _ => ∃ kept B, Pool.Kept r.network.families E H kept B ∧ v = ⟨B, some c⟩
  | .ok _ => ∃ a m, r.network.families.Serves a ∧ (∀ s, s ∈ v.held ↔ (s ∈ H ∧ s ∉ E) ∨ s ∈ a) ∧
      v.record = some m ∧ (m = c ∧ differs a E = false ∨ Written (r.declare (some a)) c m)

variable {c n : Node} {D H : Set Cidr}

/-- Whether the copy `n` declares the subnets that are settled, and the id of the network. -/
def Shows (r : Reconciler) (n : Node) (subnets : List Cidr) : Prop :=
  differs subnets (r.declaredSubnets n) = false ∧ r.declaredId n = some r.network.id

instance (r : Reconciler) (n : Node) (subnets : List Cidr) : Decidable (r.Shows n subnets) :=
  inferInstanceAs (Decidable (_ ∧ _))

theorem conclude_recorded {H B : Set Cidr} {a : Pool.Assignment} (held : List Cidr) (hc : c.key = n.key)
    (hH : ∀ s, s ∈ H ↔ s ∈ B ∨ s ∈ a.allocated) (hnew : ∀ s ∈ a.allocated, s ∉ B) (hinv : inv ⟨H, some c⟩)
    (hback : inv ⟨B, some c⟩) (hwritten : ∀ m, Written (r.declare (some a.subnets)) c m → inv ⟨H, some m⟩) :
    (r.conclude n held (some a)).Always (Request.Seen .cluster n.key) inv
      (fun result v => if r.Shows n a.subnets then result = .ok () ∧ v = ⟨H, some c⟩
        else Recorded (r.declare (some a.subnets)) c H B result v) ⟨H, some c⟩ := by
  unfold conclude
  simp only [Option.map_some, Option.any_some, Option.getD_some]
  have hshows : (!differs a.subnets (r.declaredSubnets n) && r.declaredId n == some r.network.id) = true ↔
      r.Shows n a.subnets := by
    rw [Bool.and_eq_true, Bool.not_eq_true', beq_iff_eq, Shows]
  by_cases hs : r.Shows n a.subnets
  · rw [if_pos (hshows.2 hs), always_bind]
    simp only [if_pos hs]
    split
    · refine (releaseVanished_always .cluster hinv).imp ?_
      rintro _ v rfl
      exact ⟨rfl, rfl⟩
    · exact ⟨rfl, rfl⟩
  · rw [if_neg (hshows.not.2 hs)]
    simp only [if_neg hs]
    exact writeOrUndo_always r hc hH hnew hinv hback hwritten

theorem conclude_always {H' : Set Cidr} {a : Pool.Assignment} (held : List Cidr) (hc : c.key = n.key)
    (hsettled : Pool.Settled r.network.families (r.declaredSubnets n) D H (.ok a) H') (hDH : D ⊆ H')
    (hkeep : ∀ H, D ⊆ H → inv ⟨H, some c⟩)
    (hwrite : ∀ H l m, r.network.families.Serves l → (∀ s ∈ l, s ∈ H) → Written (r.declare (some l)) c m →
      inv ⟨H, some m⟩) :
    (r.conclude n held (some a)).Always (Request.Seen .cluster n.key) inv (r.Synced (r.declaredSubnets n) c H)
      ⟨H', some c⟩ := by
  obtain ⟨kept, B, hkept, hDB, hserves, hsubnets, hnew, hH'⟩ := hsettled
  have hheld : ∀ s, s ∈ H' ↔ (s ∈ H ∧ s ∉ r.declaredSubnets n) ∨ s ∈ a.subnets := by
    intro s
    rw [hH', hkept.held_iff, hsubnets, List.mem_append]
    tauto
  have hall : ∀ s ∈ a.subnets, s ∈ H' := fun s hs => (hheld s).2 (Or.inr hs)
  refine (conclude_recorded held hc hH' hnew (hkeep H' hDH) (hkeep B hDB)
    fun m hm => hwrite H' a.subnets m hserves hall hm).imp fun result v hv => ?_
  split at hv
  · rename_i hshows
    obtain ⟨rfl, rfl⟩ := hv
    exact ⟨a.subnets, c, hserves, hheld, rfl, Or.inl ⟨rfl, hshows.1⟩⟩
  · cases result with
    | error e => exact ⟨kept, B, hkept, hv⟩
    | ok _ =>
      obtain ⟨m, hm, rfl⟩ := hv
      exact ⟨a.subnets, m, hserves, hheld, rfl, Or.inr hm⟩

/-- **One attempt on a managed node, from any copy `n` of its record `c`.** Held subnets that the copy does not
contend for stay held at every moment, and a record is only written when what it declares is held. -/
theorem syncManaged_always (hper : r.network.perNode = true) (hc : c.key = n.key) (hDH : D ⊆ H)
    (hspares : Pool.Spares r.network.families (r.declaredSubnets n) D) (hkeep : ∀ H, D ⊆ H → inv ⟨H, some c⟩)
    (hwrite : ∀ H l m, r.network.families.Serves l → (∀ s ∈ l, s ∈ H) → Written (r.declare (some l)) c m →
      inv ⟨H, some m⟩) :
    (r.syncManaged n).Always (Request.Seen .cluster n.key) inv (r.Synced (r.declaredSubnets n) c H)
      ⟨H, some c⟩ := by
  rw [syncManaged_perNode hper, always_bind]
  intro held v hstep
  obtain ⟨hheld, hrecord⟩ := Request.seen_pool_self.1 hstep
  obtain rfl : v = ⟨H, some c⟩ := View.ext hheld.1 hrecord
  refine ⟨hkeep H hDH, (always_bind _ _ _).2 (always_onPool ?_)⟩
  refine (Pool.reconcile_always (r.declaredSubnets n) hDH hspares).mono (fun H' hDH' => hkeep H' hDH') ?_
  rintro (e | a) H' ⟨hDH', hsettled⟩
  · obtain ⟨kept, B, hkept, -, rfl⟩ := hsettled
    exact ⟨kept, H', hkept, rfl⟩
  · exact conclude_always held hc hsettled hDH' hkeep hwrite

theorem recordCapacity_always {v : View} (hinv : inv v) :
    r.recordCapacity.Always (Request.Seen which name) inv (fun _ v' => v' = v) v := by
  unfold recordCapacity
  split
  · rfl
  · rw [always_bind]
    intro figures v' hstep
    have hv' : v' = v := by
      change (if PoolName.cluster = which then v'.held = v.held ∧ v'.record = v.record else v' = v) at hstep
      split at hstep
      · exact View.ext hstep.1 hstep.2
      · exact hstep
    subst hv'
    refine ⟨hinv, fun _ v hstep => ?_⟩
    obtain rfl : v = v' := hstep
    exact ⟨hinv, rfl⟩

theorem thenRecord_always {v : View} (hinv : inv v) (result : Except ControlError Unit) :
    (r.thenRecord result).Always (Request.Seen which name) inv (fun result' v' => result' = result ∧ v' = v) v := by
  cases result with
  | error e => exact ⟨rfl, rfl⟩
  | ok _ =>
    refine (always_bind _ _ _).2 ((recordCapacity_always hinv).imp ?_)
    rintro _ v' rfl
    exact ⟨rfl, rfl⟩

theorem addOrUpdate_always (hper : r.network.perNode = true) (hn : n.isUnmanaged = false) (hc : c.key = n.key)
    (hDH : D ⊆ H) (hspares : Pool.Spares r.network.families (r.declaredSubnets n) D)
    (hkeep : ∀ H, D ⊆ H → inv ⟨H, some c⟩)
    (hwrite : ∀ H l m, r.network.families.Serves l → (∀ s ∈ l, s ∈ H) → Written (r.declare (some l)) c m →
      inv ⟨H, some m⟩) :
    (r.addOrUpdate n).Always (Request.Seen .cluster n.key) inv (r.Synced (r.declaredSubnets n) c H)
      ⟨H, some c⟩ := by
  rw [addOrUpdate_managed hn, always_bind]
  refine ((syncManaged_always hper hc hDH hspares hkeep hwrite).and_inv (hkeep H hDH)).imp ?_
  rintro result v ⟨hpost, hinv⟩
  refine (thenRecord_always hinv result).imp ?_
  rintro _ _ ⟨rfl, rfl⟩
  exact hpost

end Reconciler

end HostSubnets
