import HostSubnets.Proofs.Pool.Room
import HostSubnets.Proofs.Reconciler.Deletion
import HostSubnets.Proofs.Reconciler.Sequential
import HostSubnets.Reconciler.Event

/-!
# Deletions as a watch reports them

Nodes come and go, runs for them are in progress, and a watch that is open at times reports what happens (`Watched`).
A list tells which nodes there are, not which have gone, so a deletion is reported only if the watch is open then.

`Accounted` : whatever a name without a record still holds has a reason: its deletion was not seen, it is yet to be
handled, or a run reserved something after it. Every step keeps that (`Step.accounted`). So a deletion is handled in
the end unless it was not seen (`released_unless_unseen`), and after one that was not seen all stays held.
-/

namespace HostSubnets

open HostSubnets.Task

/-- The names that an event says are gone. -/
def WatchEvent.ends : WatchEvent → Set String
  | .deleted n => {n.key}
  | _ => ∅

def WatchEvent.ofList (nodes : List Node) : List WatchEvent := .listing :: (nodes.map .listed ++ [.listEnd])

theorem WatchEvent.ends_ofList {nodes : List Node} {e : WatchEvent} (he : e ∈ ofList nodes) : e.ends = ∅ := by
  unfold ofList at he
  rcases List.mem_cons.1 he with rfl | he
  · rfl
  · rcases List.mem_append.1 he with he | he
    · obtain ⟨n, -, rfl⟩ := List.mem_map.1 he
      rfl
    · obtain rfl := List.mem_singleton.1 he
      rfl

namespace Reconciler

variable {σ : Type} {ops : StoreOps σ} {records : σ → Records} {r : Reconciler} {which : PoolName} {name : String}

/-! ## Steps -/

/-- A world with a watch, and runs in progress. -/
structure Watched (σ : Type) where
  world : World σ
  watching : Bool
  /-- What was reported and is not handled yet. -/
  pending : List WatchEvent
  /-- The event that is being handled, and what is left of that. -/
  handling : Option (WatchEvent × Program Unit)
  runs : List (String × Program (Except ControlError (Option Duration)))
  /-- Names of nodes that were removed while the watch was not open. -/
  unseen : Set String
  /-- Names for which a run reserved something when their record was gone. -/
  revived : Set String

def Request.events : (q : Request) → q.Reply → List WatchEvent
  | .write _, .ok n => [.applied n]
  | _, _ => []

namespace Watched

def start (r : Reconciler) (ops : StoreOps σ) (nodes : List Node) (s : σ) : Watched σ :=
  ⟨r.launch ops nodes s, false, [], none, [], ∅, ∅⟩

def hear (events : List WatchEvent) (y : Watched σ) : List WatchEvent :=
  if y.watching then y.pending ++ events else y.pending

def remove (n : Node) (s : σ) (y : Watched σ) : Watched σ where
  world := { y.world with store := s }
  watching := y.watching
  pending := y.hear [.deleted n]
  handling := y.handling
  runs := y.runs
  unseen := if y.watching then y.unseen else insert n.key y.unseen
  revived := y.revived

def list (records : σ → Records) (y : Watched σ) : Watched σ :=
  { y with watching := true, pending := y.pending ++ WatchEvent.ofList (records y.world.store).values }

/-- A request of a run reserves something for a name without a record. -/
def Revives (records : σ → Records) (q : Request) (ops : StoreOps σ) (y : Watched σ) (name : String) : Prop :=
  (records y.world.store).find? name = none ∧
    ∃ which, ¬ ((q.perform ops y.world).2.pool which).heldBy name ⊆ (y.world.pool which).heldBy name

/-- One request, or something that happens to the store or the watch. -/
inductive Step (r : Reconciler) (ops : StoreOps σ) (records : σ → Records) : Watched σ → Watched σ → Prop where
  | faults {y : Watched σ} {s : σ} (hs : records s = records y.world.store) :
      Step r ops records y { y with world := { y.world with store := s } }
  | put {y : Watched σ} {n : Node} {s : σ} (hs : records s = (records y.world.store).insert n.key n) :
      Step r ops records y { y with world := { y.world with store := s }, pending := y.hear [.applied n] }
  | remove {y : Watched σ} {n : Node} {s : σ} (hn : (records y.world.store).find? n.key = some n)
      (hs : records s = (records y.world.store).erase n.key) : Step r ops records y (y.remove n s)
  | lost {y : Watched σ} : Step r ops records y { y with watching := false }
  | list {y : Watched σ} (hlost : y.watching = false) : Step r ops records y (y.list records)
  | take {y : Watched σ} {e : WatchEvent} {rest : List WatchEvent} (hidle : y.handling = none)
      (hpending : y.pending = e :: rest) :
      Step r ops records y { y with
        pending := rest
        handling := some (e, r.observe e)
        unseen := y.unseen \ e.ends
        revived := y.revived \ e.ends }
  | handle {y : Watched σ} {e : WatchEvent} {q : Request} {next : q.Reply → Program Unit}
      (hrun : y.handling = some (e, .ask q next)) :
      Step r ops records y { y with
        world := (q.perform ops y.world).2
        handling := some (e, next (q.perform ops y.world).1) }
  | handled {y : Watched σ} {e : WatchEvent} (hrun : y.handling = some (e, .done ())) :
      Step r ops records y { y with handling := none }
  /-- A run for a node starts from any copy. -/
  | begin {y : Watched σ} (n : Node) : Step r ops records y { y with runs := y.runs ++ [(n.key, r.reconcile n)] }
  | advance {y : Watched σ} {front back : List (String × Program (Except ControlError (Option Duration)))}
      {name : String} {q : Request} {next : q.Reply → Program (Except ControlError (Option Duration))}
      (hrun : y.runs = front ++ (name, .ask q next) :: back) :
      Step r ops records y { y with
        world := (q.perform ops y.world).2
        pending := y.hear (q.events (q.perform ops y.world).1)
        runs := front ++ (name, next (q.perform ops y.world).1) :: back
        revived := y.revived ∪ {x | x = name ∧ Revives records q ops y name} }
  | finish {y : Watched σ} {front back : List (String × Program (Except ControlError (Option Duration)))}
      {name : String} {result : Except ControlError (Option Duration)}
      (hrun : y.runs = front ++ (name, .done result) :: back) :
      Step r ops records y { y with runs := front ++ back }

end Watched

/-! ## What may be held for a name without a record -/

def View.Orphaned (v : View) : Prop := v.record = none ∧ v.held.Nonempty

/-- What is left of handling an event, when the pools `C` are cleared. -/
structure Clearing (e : WatchEvent) (p : Program Unit) (C : PoolName → Prop) : Prop where
  clears : p.Only (fun q => ∃ name ∈ e.ends, q.Clears name) fun _ _ => True
  clear : p.Always Request.ClearStep (fun _ => True) (fun _ C => e.ends.Nonempty → ∀ which, C which) C

theorem clearing_observe (r : Reconciler) (e : WatchEvent) :
    Clearing e (r.observe e) fun which => r.uses which = false := by
  cases e with
  | deleted n =>
    exact ⟨(delete_clears r n.key).mono fun q hq => ⟨n.key, rfl, hq⟩,
      (delete_cleared r n.key).imp fun _ _ hall _ => hall⟩
  | _ => exact ⟨only_pure _, fun hsome => absurd hsome Set.not_nonempty_empty⟩

theorem ends_subsingleton {e : WatchEvent} {a b : String} (ha : a ∈ e.ends) (hb : b ∈ e.ends) : a = b := by
  cases e with
  | deleted n => exact (Set.mem_singleton_iff.1 ha).trans (Set.mem_singleton_iff.1 hb).symm
  | _ => exact ha.elim

theorem reconcile_only (r : Reconciler) (n : Node) : (r.reconcile n).Only (Request.IsBy n.key) Request.Named := by
  unfold reconcile
  split
  · exact only_bind (delete_only r n.key) fun _ => only_pure _
  · refine only_bind (addOrUpdate_only r n) fun result => ?_
    cases result <;> exact only_pure _

namespace Watched

variable {y y' : Watched σ} {C : PoolName → Prop}

/-- Why a name may still hold something of a pool: its deletion was not seen, or a run came after it, or it waits, or
the pool is not among those that are cleared. -/
def Explains (y : Watched σ) (C : PoolName → Prop) (which : PoolName) (name : String) : Prop :=
  name ∈ y.unseen ∨ name ∈ y.revived ∨ (∃ e ∈ y.pending, name ∈ e.ends) ∨
    ∃ e p, y.handling = some (e, p) ∧ name ∈ e.ends ∧ ¬ C which

/-- Every name without a record that holds something has a reason to. -/
structure Accounted (r : Reconciler) (records : σ → Records) (y : Watched σ) : Prop where
  sound : y.world.Sound records
  confined : ∀ which s, r.uses which = false → ¬ (y.world.pool which).Hosts s
  runs : ∀ run ∈ y.runs, run.2.Only (Request.IsBy run.1) Request.Named
  explained : ∃ C, (∀ e p, y.handling = some (e, p) → Clearing e p C) ∧
    ∀ which name, (y.world.view records which name).Orphaned → y.Explains C which name

theorem subset_hear (events : List WatchEvent) (y : Watched σ) : y.pending ⊆ y.hear events := by
  unfold hear
  split
  · exact List.subset_append_left _ _
  · exact List.Subset.refl _

theorem Explains.mono (h : y.Explains C which name) (hunseen : y.unseen ⊆ y'.unseen) (hrevived : y.revived ⊆ y'.revived)
    (hpending : y.pending ⊆ y'.pending) (hhandling : y'.handling = y.handling) : y'.Explains C which name := by
  rcases h with hname | hname | ⟨e, he, hname⟩ | ⟨e, p, hrun, hname, hnot⟩
  · exact Or.inl (hunseen hname)
  · exact Or.inr (Or.inl (hrevived hname))
  · exact Or.inr (Or.inr (Or.inl ⟨e, hpending he, hname⟩))
  · exact Or.inr (Or.inr (Or.inr ⟨e, p, hhandling.trans hrun, hname, hnot⟩))

section Steps

variable (h : y.Accounted r records)
include h

theorem Accounted.of_store {s : σ} (hkeyed : (records s).Keyed) (hworld : y'.world = { y.world with store := s })
    (hruns : y'.runs = y.runs) (hhandling : y'.handling = y.handling)
    (hexplains : ∀ C which name, (records s).find? name = none →
      ((records y.world.store).find? name = none → y.Explains C which name) → y'.Explains C which name) :
    y'.Accounted r records := by
  obtain ⟨C, hclearing, hexplained⟩ := h.explained
  refine ⟨hworld ▸ h.sound.withStore hkeyed, fun which s' hunused => ?_, hruns ▸ h.runs, C, fun e p hrun => ?_,
    fun which name horphaned => ?_⟩
  · rw [hworld, World.pool_withStore]
    exact h.confined which s' hunused
  · exact hclearing e p (hhandling.symm.trans hrun)
  · rw [hworld, World.view_withStore] at horphaned
    obtain ⟨hgone, hheld⟩ := horphaned
    exact hexplains C which name hgone fun hbefore => hexplained which name ⟨hbefore, hheld⟩

theorem Accounted.faults {s : σ} (hs : records s = records y.world.store) :
    Accounted r records { y with world := { y.world with store := s } } := by
  refine h.of_store (hs ▸ h.sound.keyed) rfl rfl rfl fun C which name hgone hbefore => ?_
  rw [hs] at hgone
  exact hbefore hgone

theorem Accounted.put {n : Node} {s : σ} (hs : records s = (records y.world.store).insert n.key n) :
    Accounted r records { y with world := { y.world with store := s }, pending := y.hear [.applied n] } := by
  refine h.of_store (hs ▸ h.sound.keyed.insert rfl) rfl rfl rfl fun C which name hgone hbefore => ?_
  rw [hs, SortedMap.find?_insert] at hgone
  split at hgone
  · cases hgone
  · exact (hbefore hgone).mono subset_rfl subset_rfl (subset_hear _ y) rfl

theorem Accounted.remove {n : Node} {s : σ} (hs : records s = (records y.world.store).erase n.key) :
    Accounted r records (y.remove n s) := by
  refine h.of_store (hs ▸ h.sound.keyed.erase n.key) rfl rfl rfl fun C which name hgone hbefore => ?_
  rw [hs, SortedMap.find?_erase] at hgone
  unfold Watched.remove hear
  cases hwatching : y.watching with
  | false =>
    by_cases hname : name = n.key
    · exact Or.inl (Set.mem_insert_iff.2 (Or.inl hname))
    · rw [if_neg hname] at hgone
      exact (hbefore hgone).mono (Set.subset_insert _ _) subset_rfl (List.Subset.refl _) rfl
  | true =>
    by_cases hname : name = n.key
    · exact Or.inr (Or.inr (Or.inl ⟨.deleted n, List.mem_append_right _ List.mem_cons_self, hname⟩))
    · rw [if_neg hname] at hgone
      exact (hbefore hgone).mono subset_rfl subset_rfl (List.subset_append_left _ _) rfl

theorem Accounted.list (watching : Bool) (events : List WatchEvent) :
    Accounted r records { y with watching, pending := y.pending ++ events } := by
  obtain ⟨C, hclearing, hexplained⟩ := h.explained
  refine ⟨h.sound, h.confined, h.runs, C, hclearing, fun which name horphaned => ?_⟩
  exact (hexplained which name horphaned).mono subset_rfl subset_rfl (List.subset_append_left _ _) rfl

theorem Accounted.take {e : WatchEvent} {rest : List WatchEvent} (hidle : y.handling = none)
    (hpending : y.pending = e :: rest) :
    Accounted r records { y with
      pending := rest
      handling := some (e, r.observe e)
      unseen := y.unseen \ e.ends
      revived := y.revived \ e.ends } := by
  obtain ⟨C, -, hexplained⟩ := h.explained
  refine ⟨h.sound, h.confined, h.runs, fun which => r.uses which = false, ?_, fun which name horphaned => ?_⟩
  · rintro _ _ ⟨⟩
    exact clearing_observe r e
  · -- Whatever the name holds, it holds of a pool that is used.
    have hused : ¬ r.uses which = false := by
      intro hunused
      obtain ⟨s, hs⟩ := horphaned.2
      exact h.confined which s hunused (Pool.hosts_of_owner? (((h.sound.pools which).mem_heldBy_iff name s).1 hs))
    by_cases hname : name ∈ e.ends
    · exact Or.inr (Or.inr (Or.inr ⟨e, _, rfl, hname, hused⟩))
    · rcases hexplained which name horphaned with hold | hold | ⟨e', he', hold⟩ | ⟨e', p, hrun, -⟩
      · exact Or.inl ⟨hold, hname⟩
      · exact Or.inr (Or.inl ⟨hold, hname⟩)
      · rw [hpending] at he'
        rcases List.mem_cons.1 he' with rfl | he'
        · exact absurd hold hname
        · exact Or.inr (Or.inr (Or.inl ⟨e', he', hold⟩))
      · cases hidle.symm.trans hrun

theorem Accounted.handled {e : WatchEvent} (hrun : y.handling = some (e, .done ())) :
    Accounted r records { y with handling := none } := by
  obtain ⟨C, hclearing, hexplained⟩ := h.explained
  have hall : e.ends.Nonempty → ∀ which, C which := (hclearing e _ hrun).clear
  refine ⟨h.sound, h.confined, h.runs, C, ?_, fun which name horphaned => ?_⟩
  · rintro _ _ ⟨⟩
  · rcases hexplained which name horphaned with hold | hold | hold | ⟨e', p, hrun', hname, hnot⟩
    · exact Or.inl hold
    · exact Or.inr (Or.inl hold)
    · exact Or.inr (Or.inr (Or.inl hold))
    · obtain ⟨rfl, rfl⟩ := Prod.mk.inj (Option.some.inj (hrun.symm.trans hrun'))
      exact absurd (hall ⟨name, hname⟩ which) hnot

theorem Accounted.begin (n : Node) : Accounted r records { y with runs := y.runs ++ [(n.key, r.reconcile n)] } := by
  refine ⟨h.sound, h.confined, fun run hrun => ?_, h.explained⟩
  rcases List.mem_append.1 hrun with hrun | hrun
  · exact h.runs run hrun
  · obtain rfl := List.mem_singleton.1 hrun
    exact reconcile_only r n

theorem Accounted.finish {front back : List (String × Program (Except ControlError (Option Duration)))}
    {run : String × Program (Except ControlError (Option Duration))} (hrun : y.runs = front ++ run :: back) :
    Accounted r records { y with runs := front ++ back } := by
  refine ⟨h.sound, h.confined, fun run' hrun' => h.runs run' ?_, h.explained⟩
  rw [hrun]
  rcases List.mem_append.1 hrun' with hmem | hmem
  · exact List.mem_append_left _ hmem
  · exact List.mem_append_right _ (List.mem_cons_of_mem _ hmem)

theorem Accounted.of_request (hops : ops.Faithful records) {x : String} {q : Request} (hq : q.IsBy x)
    (hworld : y'.world = (q.perform ops y.world).2)
    (hruns : ∀ run ∈ y'.runs, run.2.Only (Request.IsBy run.1) Request.Named)
    (hexplained : ∃ C, (∀ e p, y'.handling = some (e, p) → Clearing e p C) ∧
      ∀ which name, (y'.world.view records which name).Orphaned → y'.Explains C which name) :
    y'.Accounted r records := by
  refine ⟨hworld ▸ h.sound.perform hops q, fun which s hunused => ?_, hruns, hexplained⟩
  rw [hworld, World.hosts_perform ops h.sound.pools hq.forName]
  exact h.confined which s hunused

theorem Accounted.handle (hops : ops.Faithful records) {e : WatchEvent} {q : Request} {next : q.Reply → Program Unit}
    (hrun : y.handling = some (e, .ask q next)) :
    Accounted r records { y with
      world := (q.perform ops y.world).2
      handling := some (e, next (q.perform ops y.world).1) } := by
  obtain ⟨C, hclearing, hexplained⟩ := h.explained
  obtain ⟨⟨⟨x, hx, hq⟩, hclears⟩, hclear⟩ := hclearing e _ hrun
  refine h.of_request hops hq.isBy rfl h.runs ⟨q.clear C, ?_, fun which name horphaned => ?_⟩
  · rintro _ _ ⟨⟩
    exact ⟨hclears _ trivial, (hclear _ _ rfl).2⟩
  · have hseen := h.sound.seen_perform hops which name q
    obtain ⟨hrecord, hless⟩ := hq.of_seen hseen
    have hbefore : (y.world.view records which name).Orphaned :=
      ⟨hrecord.symm.trans horphaned.1, horphaned.2.mono hless⟩
    rcases hexplained which name hbefore with hold | hold | hold | ⟨e', p, hrun', hname, hnot⟩
    · exact Or.inl hold
    · exact Or.inr (Or.inl hold)
    · exact Or.inr (Or.inr (Or.inl hold))
    · obtain ⟨rfl, -⟩ := Prod.mk.inj (Option.some.inj (hrun.symm.trans hrun'))
      refine Or.inr (Or.inr (Or.inr ⟨e, _, rfl, hname, fun hcleared => ?_⟩))
      obtain rfl := ends_subsingleton hname hx
      have hnone := hq.held_of_clear hseen hnot hcleared
      have hsome := horphaned.2
      rw [show _ = _ from hnone] at hsome
      exact Set.not_nonempty_empty hsome

theorem Accounted.advance (hops : ops.Faithful records)
    {front back : List (String × Program (Except ControlError (Option Duration)))} {x : String} {q : Request}
    {next : q.Reply → Program (Except ControlError (Option Duration))} (hrun : y.runs = front ++ (x, .ask q next) :: back) :
    Accounted r records { y with
      world := (q.perform ops y.world).2
      pending := y.hear (q.events (q.perform ops y.world).1)
      runs := front ++ (x, next (q.perform ops y.world).1) :: back
      revived := y.revived ∪ {name | name = x ∧ Revives records q ops y x} } := by
  have hmem : (x, .ask q next) ∈ y.runs := by
    rw [hrun]
    exact List.mem_append_right _ List.mem_cons_self
  obtain ⟨hq, hnext⟩ := h.runs _ hmem
  obtain ⟨C, hclearing, hexplained⟩ := h.explained
  refine h.of_request hops hq rfl (fun run hrun' => ?_) ⟨C, hclearing, fun which name horphaned => ?_⟩
  · rcases List.mem_append.1 hrun' with hrun' | hrun'
    · exact h.runs run (hrun ▸ List.mem_append_left _ hrun')
    · rcases List.mem_cons.1 hrun' with rfl | hrun'
      · exact hnext _ (h.sound.named_perform hops q)
      · exact h.runs run (hrun ▸ List.mem_append_right _ (List.mem_cons_of_mem _ hrun'))
  · have hseen := h.sound.seen_perform hops which name q
    have hgone : (y.world.view records which name).record = none := by
      have hsome := Request.isSome_record_of_seen hseen
      rw [horphaned.1] at hsome
      exact Option.not_isSome_iff_eq_none.1 (by rw [← hsome]; decide)
    have hkeep : (y.world.view records which name).held.Nonempty → Watched.Explains { y with
        world := (q.perform ops y.world).2
        pending := y.hear (q.events (q.perform ops y.world).1)
        runs := front ++ (x, next (q.perform ops y.world).1) :: back
        revived := y.revived ∪ {name | name = x ∧ Revives records q ops y x} } C which name := by
      intro hheld
      exact (hexplained which name ⟨hgone, hheld⟩).mono subset_rfl Set.subset_union_left (subset_hear _ y) rfl
    by_cases hname : name = x
    · subst hname
      by_cases hless : ((q.perform ops y.world).2.pool which).heldBy name ⊆ (y.world.pool which).heldBy name
      · exact hkeep (horphaned.2.mono hless)
      · exact Or.inr (Or.inl (Or.inr ⟨rfl, hgone, which, hless⟩))
    · have hsame := hq.eq_of_seen (Ne.symm hname) hseen
      rw [show World.view records which name _ = _ from hsame] at horphaned
      exact hkeep horphaned.2

/-- **Every step keeps account.** -/
theorem Step.accounted (hops : ops.Faithful records) (hstep : Step r ops records y y') : y'.Accounted r records := by
  cases hstep with
  | faults hs => exact h.faults hs
  | put hs => exact h.put hs
  | remove hn hs => exact h.remove hs
  | lost => simpa using h.list false []
  | list hlost => exact h.list true _
  | take hidle hpending => exact h.take hidle hpending
  | handle hrun => exact h.handle hops hrun
  | handled hrun => exact h.handled hrun
  | begin n => exact h.begin n
  | advance hrun => exact h.advance hops hrun
  | finish hrun => exact h.finish hrun

theorem Accounted.run (hops : ops.Faithful records) (hrun : Relation.ReflTransGen (Step r ops records) y y') :
    y'.Accounted r records := by
  induction hrun with
  | refl => exact h
  | tail _ hstep ih => exact hstep.accounted ih hops

end Steps

/-! ## Whole runs -/

theorem accounted_start (hops : ops.Faithful records) {s : σ} (hkeyed : (records s).Keyed) {nodes : List Node}
    (hnodes : nodes.Perm (records s).values) : (start r ops nodes s).Accounted r records := by
  have hregisters : (r.launch ops nodes s).Registers records (r.start.runAlone ops (World.start s)).2 :=
    registers_launch hops hkeyed nodes
  refine ⟨hregisters.sound, fun which t hunused hhosts => ?_, fun run hrun => ?_, fun _ => True, ?_,
    fun which name horphaned => ?_⟩
  · exact not_hosts_start ops r hunused s t ((hregisters.hosts which t).1 hhosts)
  · cases hrun
  · rintro _ _ ⟨⟩
  · obtain ⟨hgone, t, ht⟩ := horphaned
    obtain ⟨-, n, hn, rfl, -⟩ := declared_of_mem_launch ht
    change (records (r.launch ops nodes s).store).find? n.key = none at hgone
    rw [store_launch, hkeyed.mem_values_iff.1 (hnodes.mem_iff.1 hn)] at hgone
    cases hgone

/-- A name without a record for which nothing is under way. -/
structure Forgotten (records : σ → Records) (name : String) (y : Watched σ) : Prop where
  gone : (records y.world.store).find? name = none
  pending : ∀ e ∈ y.pending, name ∉ e.ends
  handling : ∀ e p, y.handling = some (e, p) → name ∉ e.ends
  runs : ∀ run ∈ y.runs, run.1 ≠ name

/-- Nothing of what it holds is given back. -/
theorem Step.held_forgotten (hops : ops.Faithful records) (h : y.Accounted r records)
    (hstep : Step r ops records y y') (hy : y.Forgotten records name) (which : PoolName) :
    (y'.world.pool which).heldBy name = (y.world.pool which).heldBy name := by
  cases hstep with
  | faults hs => exact congrArg (Pool.heldBy name) (World.pool_withStore which _ _)
  | put hs => exact congrArg (Pool.heldBy name) (World.pool_withStore which _ _)
  | remove hn hs => exact congrArg (Pool.heldBy name) (World.pool_withStore which _ _)
  | @handle e q next hrun =>
    obtain ⟨C, hclearing, -⟩ := h.explained
    obtain ⟨x, hx, hq⟩ := (hclearing e _ hrun).clears.1
    have hne : x ≠ name := by
      rintro rfl
      exact hy.handling e _ hrun hx
    exact congrArg View.held (hq.isBy.eq_of_seen hne (h.sound.seen_perform hops which name q))
  | @advance front back x q next hrun =>
    have hmem : (x, .ask q next) ∈ y.runs := by
      rw [hrun]
      exact List.mem_append_right _ List.mem_cons_self
    have hne : x ≠ name := hy.runs _ hmem
    exact congrArg View.held ((h.runs _ hmem).1.eq_of_seen hne (h.sound.seen_perform hops which name q))
  | lost => rfl
  | list hlost => rfl
  | take hidle hpending => rfl
  | handled hrun => rfl
  | begin n => rfl
  | finish hrun => rfl

/-- **Every deletion that the watch sees is handled, and one that it does not see is never made up for.** When nothing
is under way for a name without a record, it holds nothing, unless its node was removed while the watch was not open
or a run reserved something for it afterwards; and whatever it holds then, it holds for as long as there is no other
run or node of that name. -/
theorem released_unless_unseen (hops : ops.Faithful records) {s : σ} (hkeyed : (records s).Keyed) {nodes : List Node}
    (hnodes : nodes.Perm (records s).values)
    (hrun : Relation.ReflTransGen (Step r ops records) (start r ops nodes s) y) (hy : y.Forgotten records name) :
    (name ∉ y.unseen → name ∉ y.revived → ∀ which, (y.world.pool which).allocated name = []) ∧
      ∀ z, Relation.ReflTransGen (fun a b => Step r ops records a b ∧ b.Forgotten records name) y z →
        ∀ which, (z.world.pool which).heldBy name = (y.world.pool which).heldBy name := by
  have haccounted := (accounted_start hops hkeyed hnodes).run hops hrun
  constructor
  · intro hseen hkept which
    by_contra hheld
    obtain ⟨t, ht⟩ := List.exists_mem_of_ne_nil _ hheld
    obtain ⟨C, -, hexplained⟩ := haccounted.explained
    rcases hexplained which name ⟨hy.gone, t, ht⟩ with hname | hname | ⟨e, he, hname⟩ | ⟨e, p, hp, hname, -⟩
    · exact hseen hname
    · exact hkept hname
    · exact hy.pending e he hname
    · exact hy.handling e p hp hname
  · intro z hlater which
    have hall : z.Accounted r records ∧ z.Forgotten records name ∧
        (z.world.pool which).heldBy name = (y.world.pool which).heldBy name := by
      induction hlater with
      | refl => exact ⟨haccounted, hy, rfl⟩
      | tail _ hstep ih =>
        obtain ⟨hbefore, hforgotten, hsame⟩ := ih
        exact ⟨hstep.1.accounted hbefore hops, hstep.2, (hstep.1.held_forgotten hops hbefore hforgotten which).trans hsame⟩
    exact hall.2.2

/-! ## Two removals -/

theorem passes_over (ops : StoreOps σ) (records : σ → Records) (r : Reconciler) (y : Watched σ)
    (hidle : y.handling = none) (hquiet : ∀ e ∈ y.pending, e.ends = ∅) :
    Relation.ReflTransGen (Step r ops records) y { y with pending := [] } := by
  obtain ⟨w, watching, pending, handling, runs, unseen, revived⟩ := y
  obtain rfl : handling = none := hidle
  induction pending with
  | nil => exact .refl
  | cons e rest ih =>
    have hends : e.ends = ∅ := hquiet e List.mem_cons_self
    have hnothing : r.observe e = .done () := by
      cases e with
      | deleted n => exact absurd hends (Set.singleton_ne_empty n.key)
      | _ => rfl
    have htake : Step r ops records ⟨w, watching, e :: rest, none, runs, unseen, revived⟩
        ⟨w, watching, rest, some (e, r.observe e), runs, unseen \ e.ends, revived \ e.ends⟩ := .take rfl rfl
    rw [hnothing, hends, Set.sdiff_empty, Set.sdiff_empty] at htake
    have hhandled : Step r ops records ⟨w, watching, rest, some (e, .done ()), runs, unseen, revived⟩
        ⟨w, watching, rest, none, runs, unseen, revived⟩ := .handled rfl
    exact .head htake (.head hhandled (ih fun e' he' => hquiet e' (List.mem_cons_of_mem _ he')))

/-- What is left of handling an event may be carried out with nothing in between. -/
theorem handles_alone (ops : StoreOps σ) (records : σ → Records) (r : Reconciler) {y : Watched σ} {e : WatchEvent}
    {p : Program Unit} (hrun : y.handling = some (e, p)) :
    Relation.ReflTransGen (Step r ops records) y
      { y with world := (p.runAlone ops y.world).2, handling := none } := by
  obtain ⟨w, watching, pending, handling, runs, unseen, revived⟩ := y
  obtain rfl : handling = some (e, p) := hrun
  have hsteps : Relation.ReflTransGen (Step r ops records) ⟨w, watching, pending, some (e, p), runs, unseen, revived⟩
      ⟨(p.runAlone ops w).2, watching, pending, some (e, .done ()), runs, unseen, revived⟩ :=
    steps_run (fun p w => (⟨w, watching, pending, some (e, p), runs, unseen, revived⟩ : Watched σ))
      (fun q next w => .handle rfl) p w
  exact .tail hsteps (.handled rfl)

section Removal

variable {n : Node} {s : σ} (hn : (records y.world.store).find? n.key = some n)
  (hs : records s = (records y.world.store).erase n.key) (hidle : y.handling = none)
include hn hs hidle

theorem remove_list (hwatching : y.watching = false) (hquiet : ∀ e ∈ y.pending, e.ends = ∅) :
    Relation.ReflTransGen (Step r ops records) y { (y.remove n s).list records with pending := [] } := by
  have hpass := passes_over ops records r ((y.remove n s).list records) hidle fun e he => ?_
  · exact .head (.remove hn hs) (.head (.list hwatching) hpass)
  · rcases List.mem_append.1 he with he | he
    · unfold remove hear at he
      rw [hwatching] at he
      exact hquiet e he
    · exact WatchEvent.ends_ofList he

theorem remove_handle (hwatching : y.watching = true) (hpending : y.pending = []) :
    Relation.ReflTransGen (Step r ops records) y { y with
      world := ((r.delete n.key).runAlone ops { y.world with store := s }).2
      unseen := y.unseen \ {n.key}
      revived := y.revived \ {n.key} } := by
  obtain ⟨w, watching, pending, handling, runs, unseen, revived⟩ := y
  obtain rfl : watching = true := hwatching
  obtain rfl : pending = [] := hpending
  obtain rfl : handling = none := hidle
  exact .head (.remove hn hs) (.head (.take rfl rfl) (handles_alone ops records r rfl))

end Removal

/-- One node, which declares a subnet. -/
def sampleRecords : Records := Records.put sampleNode .empty

theorem keyed_sampleRecords : Records.Keyed sampleRecords := Records.keyed_empty.insert rfl

theorem launch_sampleRecords :
    (sample.launch Records.ops [sampleNode] sampleRecords).store.find? sampleNode.key = some sampleNode ∧
      (sample.launch Records.ops [sampleNode] sampleRecords).cluster.allocated "b" = sample.declaredSubnets sampleNode ∧
        sample.declaredSubnets sampleNode ≠ [] := by
  refine ⟨?_, by decide +kernel, by decide +kernel⟩
  rw [store_launch]
  decide +kernel

/-- The node is removed, and then the watch opens: its subnet stays held. -/
theorem removed_before_list :
    ∃ y, Relation.ReflTransGen (Step sample Records.ops id) (start sample Records.ops [sampleNode] sampleRecords) y ∧
      y.watching = true ∧ y.pending = [] ∧ y.handling = none ∧ y.runs = [] ∧ y.world.store.find? "b" = none ∧
        y.world.cluster.allocated "b" = sample.declaredSubnets sampleNode ∧ sample.declaredSubnets sampleNode ≠ [] := by
  unfold start
  obtain ⟨hfind, hheld, hsome⟩ := launch_sampleRecords
  generalize sample.launch Records.ops [sampleNode] sampleRecords = w at hfind hheld ⊢
  have hrun := @remove_list _ Records.ops id sample ⟨w, false, [], none, [], ∅, ∅⟩ sampleNode _ hfind rfl rfl rfl
    fun e he => nomatch he
  have hnone : (w.store.erase "b").find? "b" = none := by rw [SortedMap.find?_erase, if_pos rfl]
  exact ⟨_, hrun, rfl, rfl, rfl, rfl, hnone, hheld, hsome⟩

/-- It is removed once the watch is open, and its deletion handled: nothing is held. -/
theorem removed_after_list :
    (start sample Records.ops [sampleNode] sampleRecords).world.cluster.allocated "b" ≠ [] ∧
      ∃ y, Relation.ReflTransGen (Step sample Records.ops id) (start sample Records.ops [sampleNode] sampleRecords) y ∧
        y.Forgotten id "b" ∧ ∀ which, (y.world.pool which).allocated "b" = [] := by
  have hsound : (sample.launch Records.ops [sampleNode] sampleRecords).Sound id :=
    sound_launch Records.faithful keyed_sampleRecords
  obtain ⟨hfind, hheld, hsome⟩ := launch_sampleRecords
  have hclear : ∀ y, Relation.ReflTransGen (Step sample Records.ops id)
        (start sample Records.ops [sampleNode] sampleRecords) y →
      y.Forgotten id "b" → "b" ∉ y.unseen → "b" ∉ y.revived → ∀ which, (y.world.pool which).allocated "b" = [] :=
    fun y hrun hy => (released_unless_unseen Records.faithful keyed_sampleRecords (List.Perm.refl _) hrun hy).1
  unfold start at hclear ⊢
  generalize sample.launch Records.ops [sampleNode] sampleRecords = w at hfind hheld hsound hclear ⊢
  refine ⟨hheld ▸ hsome, ?_⟩
  -- The watch opens, and then the node is removed.
  have hlist : Step sample Records.ops id ⟨w, false, [], none, [], ∅, ∅⟩
      ⟨w, true, WatchEvent.ofList w.store.values, none, [], ∅, ∅⟩ := .list rfl
  have hpass := passes_over Records.ops id sample ⟨w, true, WatchEvent.ofList w.store.values, none, [], ∅, ∅⟩ rfl
    fun e he => WatchEvent.ends_ofList he
  have hremove := @remove_handle _ Records.ops id sample ⟨w, true, [], none, [], ∅, ∅⟩ sampleNode _ hfind rfl rfl rfl rfl
  have hnone : (w.store.erase "b").find? "b" = none := by rw [SortedMap.find?_erase, if_pos rfl]
  have herased : World.Sound id { w with store := w.store.erase "b" } := hsound.withStore (hsound.keyed.erase "b")
  have hview := runAlone_of_always Records.faithful herased (delete_always rfl "b" (r := sample) _)
  have hafter := (congrArg View.record hview).trans hnone
  have hforgotten : Watched.Forgotten id "b"
      ⟨((sample.delete "b").runAlone Records.ops { w with store := w.store.erase "b" }).2, true, [], none, [],
        ∅ \ {"b"}, ∅ \ {"b"}⟩ :=
    ⟨hafter, fun e he => (nomatch he), fun e p hp => (nomatch hp), fun run hrun => (nomatch hrun)⟩
  have hrun := Relation.ReflTransGen.head hlist (hpass.trans hremove)
  exact ⟨_, hrun, hforgotten, hclear _ hrun hforgotten (fun h => h.1) fun h => h.1⟩

end Watched

end Reconciler

end HostSubnets
