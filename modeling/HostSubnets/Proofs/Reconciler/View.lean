import HostSubnets.Proofs.Pool.Seen
import HostSubnets.Proofs.Store.Faithful
import HostSubnets.Proofs.Task.Always
import HostSubnets.Reconciler.Request

/-!
# Requests as one node sees them

Of a world a node name sees what it holds in one of the pools and its own record (`World.view`). `Request.Seen`
says what a request and its reply do to that; `seen_perform` that every request on a sound world agrees with it.
Requests made for another name are not seen (`IsBy.eq_of_seen`), so the program of one node can be followed on its
view whatever runs beside it.
-/

namespace HostSubnets.Reconciler

/-- What one node name sees. -/
@[ext]
structure View where
  held : Set Cidr
  record : Option Node

variable {σ : Type} {ops : StoreOps σ} {records : σ → Records}

def World.view (records : σ → Records) (which : PoolName) (name : String) (w : World σ) : View :=
  ⟨(w.pool which).heldBy name, (records w.store).find? name⟩

/-- Coherent pools, and records under their names. -/
structure World.Sound (records : σ → Records) (w : World σ) : Prop where
  pools : ∀ which, (w.pool which).Coherent
  keyed : (records w.store).Keyed

/-- Neither the record of a name nor what it holds has changed. -/
structure World.Untouched (records : σ → Records) (name : String) (w w' : World σ) : Prop where
  record : (records w'.store).find? name = (records w.store).find? name
  held : ∀ which, (w'.pool which).allocated name = (w.pool which).allocated name

theorem World.Untouched.refl (name : String) (w : World σ) : w.Untouched records name w := ⟨rfl, fun _ => rfl⟩

theorem World.Untouched.trans {name : String} {w w₁ w' : World σ} (h : w.Untouched records name w₁)
    (h' : w₁.Untouched records name w') : w.Untouched records name w' where
  record := h'.record.trans h.record
  held := fun which => (h'.held which).trans (h.held which)

theorem World.pool_setPool (which x : PoolName) (p : Pool) (w : World σ) :
    (w.setPool which p).pool x = if x = which then p else w.pool x := by
  cases which <;> cases x <;> rfl

theorem World.store_setPool (which : PoolName) (p : Pool) (w : World σ) :
    (w.setPool which p).store = w.store := by cases which <;> rfl

namespace Request

/-- The reply to a request, and what `name` sees before and after it. -/
def Seen (which : PoolName) (name : String) : (q : Request) → View → q.Reply → View → Prop
  | .pool x q, v, reply, v' =>
    if x = which then q.Seen name v.held reply v'.held ∧ v'.record = v.record else v' = v
  | .get x, v, .ok n, v' => v' = v ∧ (x = name → v.record = some n)
  | .get x, v, .error e, v' => v' = v ∧ (x = name → e.isNotFound = true → v.record = none)
  | .write n, v, .ok w, v' =>
    if n.key = name then v.record.isSome = true ∧ (∃ version, w = { n with version }) ∧ v' = ⟨v.held, some w⟩
    else v' = v
  | .write n, v, .error e, v' => v' = v ∧ (n.key = name → e.isNotFound = true → v.record = none)
  | _, v, _, v' => v' = v

theorem seen_pool_self {which : PoolName} {name : String} {q : Pool.Request} {v v' : View} {reply : q.Reply} :
    (pool which q).Seen which name v reply v' ↔ q.Seen name v.held reply v'.held ∧ v'.record = v.record :=
  iff_of_eq (if_pos rfl)

theorem seen_pool_other {x which : PoolName} (h : x ≠ which) {name : String} {q : Pool.Request} {v v' : View}
    {reply : q.Reply} : (pool x q).Seen which name v reply v' ↔ v' = v :=
  iff_of_eq (if_neg h)

/-- A request that changes nothing of any other name. -/
def IsBy (name : String) : Request → Prop
  | .pool _ q => q.IsBy name
  | .write n => n.key = name
  | _ => True

def ForName (q : Request) : Prop := ∃ name, q.IsBy name

theorem IsBy.forName {name : String} {q : Request} (h : q.IsBy name) : q.ForName := ⟨name, h⟩

def Named : (q : Request) → q.Reply → Prop
  | .get x, .ok n => n.key = x
  | _, _ => True

/-- Nobody else sees the requests of a name. -/
theorem IsBy.eq_of_seen {x name : String} {q : Request} (hq : q.IsBy x) (hne : x ≠ name) {which : PoolName}
    {v v' : View} {reply : q.Reply} (h : q.Seen which name v reply v') : v' = v := by
  cases q with
  | pool y q =>
    change (if y = which then _ else _) at h
    split at h
    · exact View.ext (Pool.Request.IsBy.eq_of_seen hq hne h.1) h.2
    · exact h
  | get y => cases reply <;> exact h.1
  | list selector => exact h
  | write n =>
    obtain rfl : n.key = x := hq
    cases reply with
    | ok w => exact (if_neg hne).mp h
    | error e => exact h.1
  | pause delay jitter => exact h
  | recordCapacity figures => exact h
  | recordAllocated figures => exact h

/-- No request makes a record or removes one. -/
theorem isSome_record_of_seen {which : PoolName} {name : String} {q : Request} {v v' : View}
    {reply : q.Reply} (h : q.Seen which name v reply v') : v'.record.isSome = v.record.isSome := by
  cases q with
  | pool x q =>
    by_cases hx : x = which
    · subst hx
      rw [(seen_pool_self.1 h).2]
    · rw [(seen_pool_other hx).1 h]
  | get x =>
    cases reply with
    | ok n => rw [h.1]
    | error e => rw [h.1]
  | write n =>
    cases reply with
    | ok w =>
      change if n.key = name then _ else _ at h
      split at h
      · obtain ⟨hsome, -, rfl⟩ := h
        exact hsome.symm
      · rw [h]
    | error e => rw [h.1]
  | list selector => exact congrArg (fun v => v.record.isSome) h
  | pause delay jitter => exact congrArg (fun v => v.record.isSome) h
  | recordCapacity figures => exact congrArg (fun v => v.record.isSome) h
  | recordAllocated figures => exact congrArg (fun v => v.record.isSome) h

end Request

theorem World.view_withStore (which : PoolName) (name : String) (w : World σ) (s : σ) :
    World.view records which name { w with store := s } = ⟨(w.pool which).heldBy name, (records s).find? name⟩ := by
  cases which <;> rfl

theorem World.view_withStore_of_find? {w : World σ} {s : σ} {name : String}
    (hs : (records s).find? name = (records w.store).find? name) (which : PoolName) :
    World.view records which name { w with store := s } = w.view records which name := by
  rw [World.view_withStore, hs]
  rfl

theorem World.Sound.withStore {w : World σ} (hw : w.Sound records) {s : σ} (h : (records s).Keyed) :
    World.Sound records { w with store := s } where
  pools := fun which => by
    have hp := hw.pools which
    cases which <;> exact hp
  keyed := h

theorem World.view_figures (which : PoolName) (name : String) (w : World σ) (gauges : Gauges) (clock : Nat) :
    World.view records which name { w with gauges, clock } = w.view records which name := by
  cases which <;> rfl

theorem World.pool_figures (which : PoolName) (w : World σ) (gauges : Gauges) (clock : Nat) :
    World.pool { w with gauges, clock } which = w.pool which := by
  cases which <;> rfl

theorem World.pool_withStore (which : PoolName) (w : World σ) (s : σ) :
    World.pool { w with store := s } which = w.pool which := by
  cases which <;> rfl

theorem World.pool_perform (ops : StoreOps σ) (q : Request) (which : PoolName) (w : World σ) :
    (∃ p, q = .pool which p ∧ (q.perform ops w).2.pool which = (p.perform (w.pool which)).2) ∨
      (q.perform ops w).2.pool which = w.pool which := by
  cases q with
  | pool x q =>
    have hpool : (((Request.pool x q).perform ops w).2).pool which =
        if which = x then (q.perform (w.pool x)).2 else w.pool which := World.pool_setPool x which _ w
    by_cases hx : which = x
    · subst hx
      exact Or.inl ⟨q, rfl, hpool.trans (if_pos rfl)⟩
    · exact Or.inr (hpool.trans (if_neg hx))
  | get x => exact Or.inr (World.pool_withStore which w _)
  | list selector => exact Or.inr (World.pool_withStore which w _)
  | write n => exact Or.inr (World.pool_withStore which w _)
  | pause delay jitter => exact Or.inr (World.pool_figures which w _ _)
  | recordCapacity figures => exact Or.inr (World.pool_figures which w _ _)
  | recordAllocated figures => exact Or.inr (World.pool_figures which w _ _)

theorem World.coherent_perform (ops : StoreOps σ) {w : World σ} (hw : ∀ which, (w.pool which).Coherent) (q : Request)
    (which : PoolName) : ((q.perform ops w).2.pool which).Coherent := by
  rcases World.pool_perform ops q which w with ⟨p, -, hpool⟩ | hsame
  · rw [hpool]
    exact (hw which).perform p
  · rw [hsame]
    exact hw which

section Perform

variable (hops : ops.Faithful records) {w : World σ} (hw : w.Sound records)
include hops hw

theorem World.Sound.perform (q : Request) : (q.perform ops w).2.Sound records := by
  refine ⟨World.coherent_perform ops hw.pools q, ?_⟩
  have hfigures : ∀ gauges clock, (records (World.store { w with gauges, clock })).Keyed := fun _ _ => hw.keyed
  cases q with
  | pool x q =>
    show (records (w.setPool x _).store).Keyed
    rw [World.store_setPool]
    exact hw.keyed
  | get x =>
    show (records (ops.get x w.store).2).Keyed
    rw [hops.get_records]
    exact hw.keyed
  | list selector =>
    show (records (ops.list selector w.store).2).Keyed
    rw [hops.list_records]
    exact hw.keyed
  | write n =>
    show (records (ops.write n w.store).2).Keyed
    cases hr : (ops.write n w.store).1 with
    | ok m =>
      obtain ⟨-, ⟨version, rfl⟩, hrecords⟩ := hops.write_ok n w.store m hr
      rw [hrecords]
      exact hw.keyed.insert rfl
    | error e =>
      rw [(hops.write_error n w.store e hr).1]
      exact hw.keyed
  | pause delay jitter => exact hfigures _ _
  | recordCapacity figures => exact hfigures _ _
  | recordAllocated figures => exact hfigures _ _

theorem World.Sound.named_perform (q : Request) : q.Named (q.perform ops w).1 := by
  cases q with
  | get x =>
    show (Request.get x).Named (ops.get x w.store).1
    cases hr : (ops.get x w.store).1 with
    | ok n => exact hw.keyed x n (hops.get_ok x w.store n hr)
    | error e => exact trivial
  | _ => exact trivial

omit hops in
theorem World.Sound.seen_pool (which : PoolName) (name : String) (x : PoolName) (q : Pool.Request) :
    (Request.pool x q).Seen which name (w.view records which name) (q.perform (w.pool x)).1
      (World.view records which name (w.setPool x (q.perform (w.pool x)).2)) := by
  have hview : World.view records which name (w.setPool x (q.perform (w.pool x)).2) =
      ⟨(if which = x then (q.perform (w.pool x)).2 else w.pool which).heldBy name,
        (records w.store).find? name⟩ := by
    unfold World.view
    rw [World.pool_setPool, World.store_setPool]
  rw [hview]
  by_cases hx : x = which
  · subst hx
    rw [Request.seen_pool_self, if_pos rfl]
    exact ⟨(hw.pools x).seen_perform name q, rfl⟩
  · rw [Request.seen_pool_other hx, if_neg (Ne.symm hx)]
    rfl

omit hw in
theorem World.seen_write (which : PoolName) (name : String) (n : Node) :
    (Request.write n).Seen which name (w.view records which name) (ops.write n w.store).1
      (World.view records which name { w with store := (ops.write n w.store).2 }) := by
  rw [World.view_withStore which name w (ops.write n w.store).2]
  cases hr : (ops.write n w.store).1 with
  | ok m =>
    obtain ⟨hsome, hversion, hrecords⟩ := hops.write_ok n w.store m hr
    rw [hrecords, SortedMap.find?_insert]
    show if n.key = name then _ else _
    split
    · rename_i hkey
      subst hkey
      exact ⟨hsome, hversion, by rw [if_pos rfl]; rfl⟩
    · rename_i hkey
      rw [if_neg (Ne.symm hkey)]
      rfl
  | error e =>
    obtain ⟨hrecords, hmissing⟩ := hops.write_error n w.store e hr
    rw [hrecords]
    exact ⟨rfl, fun hkey => hkey ▸ hmissing⟩

/-- **Every request is seen by every name as `Request.Seen` says.** -/
theorem World.Sound.seen_perform (which : PoolName) (name : String) (q : Request) :
    q.Seen which name (w.view records which name) (q.perform ops w).1
      ((q.perform ops w).2.view records which name) := by
  cases q with
  | pool x q => exact hw.seen_pool which name x q
  | get x =>
    have hsame : World.view records which name { w with store := (ops.get x w.store).2 } =
        w.view records which name := by
      rw [World.view_withStore, hops.get_records]
      rfl
    show (Request.get x).Seen which name _ (ops.get x w.store).1 _
    cases hr : (ops.get x w.store).1 with
    | ok n => exact ⟨hsame, fun hx => hx ▸ hops.get_ok x w.store n hr⟩
    | error e => exact ⟨hsame, fun hx he => hx ▸ hops.get_notFound x w.store e hr he⟩
  | list selector =>
    show World.view records which name { w with store := (ops.list selector w.store).2 } = _
    rw [World.view_withStore, hops.list_records]
    rfl
  | write n => exact World.seen_write hops which name n
  | pause delay jitter => exact World.view_figures which name w _ _
  | recordCapacity figures => exact World.view_figures which name w _ _
  | recordAllocated figures => exact World.view_figures which name w _ _

end Perform

/-! ## Programs on one pool -/

section OnPool

open HostSubnets.Task

variable {which : PoolName} {name : String} {α : Type}

theorem always_onPool {inv : View → Prop} {post : α → View → Prop} {program : Pool.Program α} {v : View}
    (h : program.Always (Pool.Request.Seen name) (fun H => inv ⟨H, v.record⟩)
      (fun a H => post a ⟨H, v.record⟩) v.held) :
    (onPool which program).Always (Request.Seen which name) inv post v := by
  obtain ⟨H, record⟩ := v
  induction program generalizing H with
  | done value => exact h
  | ask q next ih =>
    intro reply v' hstep
    obtain ⟨hseen, hrecord⟩ := (if_pos rfl).mp hstep
    obtain ⟨H', record'⟩ := v'
    obtain rfl : record' = record := hrecord
    obtain ⟨hinv, hnext⟩ := h reply H' hseen
    exact ⟨hinv, ih reply H' hnext⟩

end OnPool

end HostSubnets.Reconciler
