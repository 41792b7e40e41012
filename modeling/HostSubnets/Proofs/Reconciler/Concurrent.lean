import HostSubnets.Proofs.Pool.Representation
import HostSubnets.Proofs.Reconciler.Sequential

/-!
# Runs side by side

`System` : runs for nodes and deletions in progress on one world, each request a step of its own, while nodes
appear and are removed and the store fails as it likes. A run may start from any record its node has had.
`System.Safe` : every record declares subnets that its node holds in the pool, and every run in progress keeps it
so for its own node; other nodes do not notice it. It holds at the start (`safe_start`) and is kept by every step
(`Step.safe`), and as no subnet has two holders, no two nodes ever declare a common address (`declared_apart`).
-/

namespace HostSubnets.Reconciler

open HostSubnets.Task

variable {σ : Type} {ops : StoreOps σ} {records : σ → Records} {r : Reconciler}

/-! ## Steps -/

/-- Runs in progress on one world. -/
structure System (σ : Type) where
  world : World σ
  updates : String → Option (Program (Except ControlError Unit))
  deletions : List (String × Program Unit)
  versions : Set Node
  removed : Set String

namespace System

def current (records : σ → Records) (w : World σ) : Set Node := {n | ∃ name, (records w.store).find? name = some n}

def see (records : σ → Records) (w : World σ) (y : System σ) : System σ :=
  { y with world := w, versions := y.versions ∪ current records w }

def start (r : Reconciler) (ops : StoreOps σ) (records : σ → Records) (nodes : List Node) (s : σ) : System σ :=
  ⟨r.launch ops nodes s, fun _ => none, [], current records (r.launch ops nodes s), ∅⟩

theorem start_world (nodes : List Node) (s : σ) : (start r ops records nodes s).world = r.launch ops nodes s := rfl

end System

/-- One request of one run, or something that happens to the store. -/
inductive Step (r : Reconciler) (ops : StoreOps σ) (records : σ → Records) : System σ → System σ → Prop where
  /-- A run for a node starts from a record it has, or has had. -/
  | begin {y : System σ} {n : Node} (hn : n ∈ y.versions) (hidle : y.updates n.key = none) :
      Step r ops records y { y with updates := Function.update y.updates n.key (some (r.addOrUpdate n)) }
  | advance {y : System σ} {name : String} {q : Request} {next : q.Reply → Program (Except ControlError Unit)}
      (hrun : y.updates name = some (.ask q next)) :
      Step r ops records y { y.see records (q.perform ops y.world).2 with
        updates := Function.update y.updates name (some (next (q.perform ops y.world).1)) }
  | finish {y : System σ} {name : String} {result : Except ControlError Unit}
      (hrun : y.updates name = some (.done result)) :
      Step r ops records y { y with updates := Function.update y.updates name none }
  /-- A managed node of a name that was not in use before, declaring nothing. -/
  | appear {y : System σ} {n : Node} {s : σ} (hnew : (records y.world.store).find? n.key = none)
      (hnever : n.key ∉ y.removed) (hmanaged : n.isUnmanaged = false) (hnothing : r.declaredSubnets n = [])
      (hs : records s = (records y.world.store).insert n.key n) :
      Step r ops records y (y.see records { y.world with store := s })
  | remove {y : System σ} {name : String} {n : Node} {s : σ} (hn : (records y.world.store).find? name = some n)
      (hs : records s = (records y.world.store).erase name) :
      Step r ops records y { y.see records { y.world with store := s } with removed := insert name y.removed }
  | beginDelete {y : System σ} {name : String} (hname : name ∈ y.removed) :
      Step r ops records y { y with deletions := y.deletions ++ [(name, r.delete name)] }
  | advanceDelete {y : System σ} {front back : List (String × Program Unit)} {name : String} {q : Request}
      {next : q.Reply → Program Unit} (hrun : y.deletions = front ++ (name, .ask q next) :: back) :
      Step r ops records y { y.see records (q.perform ops y.world).2 with
        deletions := front ++ (name, next (q.perform ops y.world).1) :: back }
  | faults {y : System σ} {s : σ} (hs : records s = records y.world.store) :
      Step r ops records y (y.see records { y.world with store := s })

/-! ## The invariant -/

/-- What the record declares is held, and is what a node of the network may declare. -/
def View.Backed (r : Reconciler) (v : View) : Prop :=
  ∀ c, v.record = some c → c.isUnmanaged = false ∧ r.network.families.Admits (r.declaredSubnets c) ∧
    ∀ t ∈ r.declaredSubnets c, t ∈ v.held

/-- What is true of one name: its view, and the run in progress for it. -/
structure Tracked (r : Reconciler) (name : String) (gone : Prop) (v : View)
    (run : Option (Program (Except ControlError Unit))) : Prop where
  backed : v.Backed r
  absent : gone → v.record = none
  asks : ∀ p, run = some p → p.Only (Request.IsBy name) Request.Named
  follows : ∀ p, run = some p →
    gone ∨ v.record.isSome = true ∧ p.Always (Request.Seen .cluster name) (View.Backed r) (fun _ _ => True) v

/-- Every name is tracked, every record that there has been could be declared again, and deletions are for removed
nodes. -/
structure System.Safe (r : Reconciler) (records : σ → Records) (y : System σ) : Prop where
  sound : y.world.Sound records
  tracked : ∀ name, Tracked r name (name ∈ y.removed) (y.world.view records .cluster name) (y.updates name)
  versions : ∀ n ∈ y.versions, n.isUnmanaged = false ∧ r.network.families.Admits (r.declaredSubnets n) ∧
    (n.key ∈ y.removed ∨ (y.world.view records .cluster n.key).record.isSome = true)
  deletions : ∀ d ∈ y.deletions, d.1 ∈ y.removed ∧ d.2.Only (Request.IsBy d.1) Request.Named

theorem View.backed_of_none {v : View} (h : v.record = none) : v.Backed r := by
  intro c hc
  cases h.symm.trans hc

theorem follows_addOrUpdate (hper : r.network.perNode = true) {n c : Node} (hn : n.isUnmanaged = false)
    (hadmits : r.network.families.Admits (r.declaredSubnets n)) (hc : c.key = n.key) {v : View}
    (hrecord : v.record = some c) (hv : v.Backed r) :
    (r.addOrUpdate n).Always (Request.Seen .cluster n.key) (View.Backed r) (fun _ _ => True) v := by
  obtain ⟨H, record⟩ := v
  obtain rfl : record = some c := hrecord
  obtain ⟨hmanaged, hdeclared, hheld⟩ := hv c rfl
  have hkeep : ∀ H', {t | t ∈ r.declaredSubnets c} ⊆ H' → View.Backed r ⟨H', some c⟩ := by
    intro H' hH' m hm
    obtain rfl := Option.some.inj hm
    exact ⟨hmanaged, hdeclared, fun t ht => hH' ht⟩
  have hwrite : ∀ H' l m, r.network.families.Serves l → (∀ t ∈ l, t ∈ H') → Written (r.declare (some l)) c m →
      View.Backed r ⟨H', some m⟩ := by
    intro H' l m hserves hl hm m' hm'
    obtain rfl := Option.some.inj hm'
    rw [isUnmanaged_written hm, declaredSubnets_written hm]
    exact ⟨hmanaged, hserves.1, hl⟩
  exact (addOrUpdate_always hper hn hc (fun t ht => hheld t ht) (Pool.spares_of_admits hadmits _) hkeep
    hwrite).imp fun _ _ _ => trivial

theorem System.Safe.of_step {y y' : System σ} (h : y.Safe r records) (x : String)
    (hsound : y'.world.Sound records)
    (hothers : ∀ name, name ≠ x → y'.world.view records .cluster name = y.world.view records .cluster name ∧
      y'.updates name = y.updates name ∧ (name ∈ y'.removed ↔ name ∈ y.removed))
    (hself : Tracked r x (x ∈ y'.removed) (y'.world.view records .cluster x) (y'.updates x))
    (hstays : x ∈ y.removed ∨ (y.world.view records .cluster x).record.isSome = true →
      x ∈ y'.removed ∨ (y'.world.view records .cluster x).record.isSome = true)
    (hversions : y'.versions ⊆ y.versions ∪ System.current records y'.world)
    (hdeletions : ∀ d ∈ y'.deletions, d.1 ∈ y'.removed ∧ d.2.Only (Request.IsBy d.1) Request.Named) :
    y'.Safe r records := by
  have htracked : ∀ name,
      Tracked r name (name ∈ y'.removed) (y'.world.view records .cluster name) (y'.updates name) := by
    intro name
    by_cases hname : name = x
    · subst hname
      exact hself
    · obtain ⟨hview, hrun, hgone⟩ := hothers name hname
      rw [hview, hrun, hgone]
      exact h.tracked name
  refine ⟨hsound, htracked, fun n hn => ?_, hdeletions⟩
  rcases hversions hn with hold | ⟨name, hname⟩
  · obtain ⟨hmanaged, hadmits, hplace⟩ := h.versions n hold
    refine ⟨hmanaged, hadmits, ?_⟩
    by_cases hx : n.key = x
    · rw [hx] at hplace ⊢
      exact hstays hplace
    · obtain ⟨hview, -, hgone⟩ := hothers n.key hx
      rw [hview, hgone]
      exact hplace
  · obtain ⟨hmanaged, hadmits, -⟩ := (htracked name).backed n hname
    refine ⟨hmanaged, hadmits, Or.inr ?_⟩
    have hkey := hsound.keyed name n hname
    subst hkey
    exact Option.isSome_of_mem hname

theorem System.Safe.of_request (hops : ops.Faithful records) {y y' : System σ} (h : y.Safe r records) {x : String}
    {q : Request} (hq : q.IsBy x) (hworld : y'.world = (q.perform ops y.world).2)
    (hversions : y'.versions = y.versions ∪ System.current records y'.world) (hremoved : y'.removed = y.removed)
    (hupdates : ∀ name, name ≠ x → y'.updates name = y.updates name)
    (hself : Tracked r x (x ∈ y.removed) ((q.perform ops y.world).2.view records .cluster x) (y'.updates x))
    (hdeletions : ∀ d ∈ y'.deletions, d.1 ∈ y.removed ∧ d.2.Only (Request.IsBy d.1) Request.Named) :
    y'.Safe r records := by
  have hseen := fun name => h.sound.seen_perform hops .cluster name q
  refine h.of_step x ?_ (fun name hname => ⟨?_, hupdates name hname, by rw [hremoved]⟩) ?_ ?_ hversions.le ?_
  · rw [hworld]
    exact h.sound.perform hops q
  · rw [hworld]
    exact hq.eq_of_seen (Ne.symm hname) (hseen name)
  · rw [hworld, hremoved]
    exact hself
  · rw [hworld, hremoved, Request.isSome_record_of_seen (hseen x)]
    exact id
  · rw [hremoved]
    exact hdeletions

/-! ## Every step is safe -/

section Steps

variable (hops : ops.Faithful records) (hper : r.network.perNode = true) {y : System σ} (h : y.Safe r records)
include h

include hper in
theorem System.Safe.begin {n : Node} (hn : n ∈ y.versions) :
    System.Safe r records
      { y with updates := Function.update y.updates n.key (some (r.addOrUpdate n)) } := by
  obtain ⟨hmanaged, hadmits, hplace⟩ := h.versions n hn
  have htracked := h.tracked n.key
  refine h.of_step n.key h.sound (fun name hname => ⟨rfl, Function.update_of_ne hname _ _, Iff.rfl⟩) ?_ id
    Set.subset_union_left h.deletions
  dsimp only
  rw [Function.update_self]
  refine ⟨htracked.backed, htracked.absent, ?_, ?_⟩
  · rintro p ⟨⟩
    exact addOrUpdate_only r n
  · rintro p ⟨⟩
    rcases hplace with hgone | hthere
    · exact Or.inl hgone
    · obtain ⟨c, hc⟩ := Option.isSome_iff_exists.1 hthere
      exact Or.inr ⟨hthere, follows_addOrUpdate hper hmanaged hadmits (h.sound.keyed n.key c hc) hc htracked.backed⟩

include hops in
theorem System.Safe.advance {name : String} {q : Request} {next : q.Reply → Program (Except ControlError Unit)}
    (hrun : y.updates name = some (.ask q next)) :
    System.Safe r records { y.see records (q.perform ops y.world).2 with
      updates := Function.update y.updates name (some (next (q.perform ops y.world).1)) } := by
  obtain ⟨-, habsent, hasks, hfollows⟩ := h.tracked name
  obtain ⟨hq, hnext⟩ := hasks _ hrun
  have hnamed := hnext _ (h.sound.named_perform hops q)
  have hseen := h.sound.seen_perform hops .cluster name q
  refine h.of_request hops hq rfl rfl rfl (fun x hx => Function.update_of_ne hx _ _) ?_ h.deletions
  change Tracked _ _ _ _ (Function.update y.updates name _ name)
  rw [Function.update_self]
  by_cases hgone : name ∈ y.removed
  · -- The node was removed: nothing is backed, and its record does not come back.
    have hnone : ((q.perform ops y.world).2.view records .cluster name).record = none := by
      have hsome := Request.isSome_record_of_seen hseen
      rw [habsent hgone] at hsome
      exact Option.not_isSome_iff_eq_none.1 (by rw [hsome]; decide)
    refine ⟨View.backed_of_none hnone, fun _ => hnone, ?_, fun _ _ => Or.inl hgone⟩
    rintro p ⟨⟩
    exact hnamed
  · obtain ⟨hthere, hfollow⟩ := (hfollows _ hrun).resolve_left hgone
    obtain ⟨hbacked, halways⟩ := hfollow _ _ hseen
    refine ⟨hbacked, fun hno => absurd hno hgone, ?_, ?_⟩
    · rintro p ⟨⟩
      exact hnamed
    · rintro p ⟨⟩
      exact Or.inr ⟨(Request.isSome_record_of_seen hseen).trans hthere, halways⟩

theorem System.Safe.finish (name : String) :
    System.Safe r records { y with updates := Function.update y.updates name none } := by
  have htracked := h.tracked name
  refine h.of_step name h.sound (fun x hx => ⟨rfl, Function.update_of_ne hx _ _, Iff.rfl⟩) ?_ id
    Set.subset_union_left h.deletions
  dsimp only
  rw [Function.update_self]
  refine ⟨htracked.backed, htracked.absent, ?_, ?_⟩
  · intro p hp
    cases hp
  · intro p hp
    cases hp

theorem System.Safe.appear {n : Node} {s : σ} (hnew : (records y.world.store).find? n.key = none)
    (hnever : n.key ∉ y.removed) (hmanaged : n.isUnmanaged = false) (hnothing : r.declaredSubnets n = [])
    (hs : records s = (records y.world.store).insert n.key n) :
    System.Safe r records (y.see records { y.world with store := s }) := by
  have hview : ∀ name, World.view records .cluster name { y.world with store := s } =
      ⟨y.world.cluster.heldBy name, if name = n.key then some n else (records y.world.store).find? name⟩ := by
    intro name
    rw [World.view_withStore, hs, SortedMap.find?_insert]
    rfl
  have hkeyed : (records s).Keyed := by
    rw [hs]
    exact h.sound.keyed.insert rfl
  refine h.of_step n.key (h.sound.withStore hkeyed) (fun name hname => ⟨?_, rfl, Iff.rfl⟩) ?_ (fun _ => ?_)
    subset_rfl h.deletions
  · refine (hview name).trans ?_
    rw [if_neg hname]
    rfl
  · show Tracked r n.key _ (World.view records .cluster n.key { y.world with store := s }) _
    rw [hview n.key, if_pos rfl]
    refine ⟨?_, fun hgone => absurd hgone hnever, (h.tracked n.key).asks, fun p hp => ?_⟩
    · intro c hc
      obtain rfl := Option.some.inj hc
      rw [hnothing]
      exact ⟨hmanaged, Families.admits_nil _, fun t ht => by cases ht⟩
    · -- A run in progress would have come from a record of this name.
      rcases (h.tracked n.key).follows p hp with hgone | ⟨hthere, -⟩
      · exact absurd hgone hnever
      · rw [show (y.world.view records .cluster n.key).record = none from hnew] at hthere
        cases hthere
  · show _ ∨ (World.view records .cluster n.key { y.world with store := s }).record.isSome = true
    rw [hview n.key, if_pos rfl]
    exact Or.inr rfl

theorem System.Safe.remove {name : String} {s : σ} (hs : records s = (records y.world.store).erase name) :
    System.Safe r records { y.see records { y.world with store := s } with removed := insert name y.removed } := by
  have hview : ∀ x, World.view records .cluster x { y.world with store := s } =
      ⟨y.world.cluster.heldBy x, if x = name then none else (records y.world.store).find? x⟩ := by
    intro x
    rw [World.view_withStore, hs, SortedMap.find?_erase]
    rfl
  have hkeyed : (records s).Keyed := by
    rw [hs]
    exact h.sound.keyed.erase name
  refine h.of_step name (h.sound.withStore hkeyed) (fun x hx => ⟨?_, rfl, ?_⟩) ?_
    (fun _ => Or.inl (Set.mem_insert name _)) subset_rfl ?_
  · refine (hview x).trans ?_
    rw [if_neg hx]
    rfl
  · exact ⟨fun hmem => hmem.resolve_left hx, Or.inr⟩
  · show Tracked r name _ (World.view records .cluster name { y.world with store := s }) _
    rw [hview name, if_pos rfl]
    exact ⟨View.backed_of_none rfl, fun _ => rfl, (h.tracked name).asks,
      fun _ _ => Or.inl (Set.mem_insert name _)⟩
  · intro d hd
    obtain ⟨hgone, honly⟩ := h.deletions d hd
    exact ⟨Or.inr hgone, honly⟩

theorem System.Safe.beginDelete {name : String} (hname : name ∈ y.removed) :
    System.Safe r records { y with deletions := y.deletions ++ [(name, r.delete name)] } := by
  refine ⟨h.sound, h.tracked, h.versions, fun d hd => ?_⟩
  rcases List.mem_append.1 hd with hd | hd
  · exact h.deletions d hd
  · obtain rfl := List.mem_singleton.1 hd
    exact ⟨hname, delete_only r name⟩

include hops in
theorem System.Safe.advanceDelete {front back : List (String × Program Unit)} {name : String} {q : Request}
    {next : q.Reply → Program Unit} (hrun : y.deletions = front ++ (name, .ask q next) :: back) :
    System.Safe r records { y.see records (q.perform ops y.world).2 with
      deletions := front ++ (name, next (q.perform ops y.world).1) :: back } := by
  have hmem : (name, .ask q next) ∈ y.deletions := by
    rw [hrun]
    exact List.mem_append_right _ List.mem_cons_self
  obtain ⟨hgone, hq, hnext⟩ := h.deletions _ hmem
  have hnone : ((q.perform ops y.world).2.view records .cluster name).record = none := by
    have hsome := Request.isSome_record_of_seen (h.sound.seen_perform hops .cluster name q)
    rw [(h.tracked name).absent hgone] at hsome
    exact Option.not_isSome_iff_eq_none.1 (by rw [hsome]; decide)
  refine h.of_request hops hq rfl rfl rfl (fun _ _ => rfl) ?_ fun d hd => ?_
  · exact ⟨View.backed_of_none hnone, fun _ => hnone, (h.tracked name).asks, fun _ _ => Or.inl hgone⟩
  · rcases List.mem_append.1 hd with hd | hd
    · exact h.deletions d (hrun ▸ List.mem_append_left _ hd)
    · rcases List.mem_cons.1 hd with rfl | hd
      · exact ⟨hgone, hnext _ (h.sound.named_perform hops q)⟩
      · exact h.deletions d (hrun ▸ List.mem_append_right _ (List.mem_cons_of_mem _ hd))

theorem System.Safe.faults {s : σ} (hs : records s = records y.world.store) :
    System.Safe r records (y.see records { y.world with store := s }) := by
  have hview : ∀ name, World.view records .cluster name { y.world with store := s } =
      y.world.view records .cluster name := by
    intro name
    rw [World.view_withStore, hs]
    rfl
  have hkeyed : (records s).Keyed := by
    rw [hs]
    exact h.sound.keyed
  refine h.of_step "" (h.sound.withStore hkeyed) (fun name _ => ⟨hview name, rfl, Iff.rfl⟩) ?_ ?_ subset_rfl h.deletions
  · show Tracked r "" _ (World.view records .cluster "" { y.world with store := s }) _
    rw [hview ""]
    exact h.tracked ""
  · show _ → _ ∨ (World.view records .cluster "" { y.world with store := s }).record.isSome = true
    rw [hview ""]
    exact id

include hops hper in
/-- **Whatever happens next, what a record declares stays held for its node.** -/
theorem Step.safe {y' : System σ} (hstep : Step r ops records y y') : y'.Safe r records := by
  cases hstep with
  | begin hn hidle => exact h.begin hper hn
  | advance hrun => exact h.advance hops hrun
  | @finish name result hrun => exact h.finish name
  | appear hnew hnever hmanaged hnothing hs => exact h.appear hnew hnever hmanaged hnothing hs
  | remove hn hs => exact h.remove hs
  | beginDelete hname => exact h.beginDelete hname
  | advanceDelete hrun => exact h.advanceDelete hops hrun
  | faults hs => exact h.faults hs

include hops hper in
theorem System.Safe.run {y' : System σ} (hrun : Relation.ReflTransGen (Step r ops records) y y') :
    y'.Safe r records := by
  induction hrun with
  | refl => exact h
  | tail _ hstep ih => exact hstep.safe hops hper ih

end Steps

/-! ## Whole runs -/

theorem safe_start (hops : ops.Faithful records) (hper : r.network.perNode = true) {s : σ}
    (hkeyed : (records s).Keyed) (hmanaged : ∀ n ∈ (records s).values, n.isUnmanaged = false)
    (hadmits : ∀ n ∈ (records s).values, r.network.families.Admits (r.declaredSubnets n))
    (hhosts : ∀ n ∈ (records s).values, ∀ t ∈ r.declaredSubnets n,
      (r.start.runAlone ops (World.start s)).2.cluster.Hosts t)
    (hapart : ∀ m ∈ (records s).values, ∀ n ∈ (records s).values, ∀ t ∈ r.declaredSubnets m,
      t ∈ r.declaredSubnets n → m = n)
    {nodes : List Node} (hnodes : nodes.Perm (records s).values) :
    (System.start r ops records nodes s).Safe r records := by
  have hsound : (r.launch ops nodes s).Sound records := sound_launch hops hkeyed
  have hstore : ∀ name, ((r.launch ops nodes s).view records .cluster name).record = (records s).find? name :=
    fun name => congrArg (fun s => (records s).find? name) (store_launch r ops nodes s)
  have hseeds : ∀ n ∈ (records s).values, r.seedsIn n .cluster = r.declaredSubnets n := by
    intro n hn
    rw [seedsIn, seeds, hmanaged n hn]
    rfl
  have hbacked : ∀ name, ((r.launch ops nodes s).view records .cluster name).Backed r := by
    intro name n hn
    have hfind : (records s).find? name = some n := (hstore name).symm.trans hn
    have hmem : n ∈ (records s).values := SortedMap.mem_values.2 ⟨name, hfind⟩
    refine ⟨hmanaged n hmem, hadmits n hmem, fun t ht => ?_⟩
    obtain rfl := hkeyed name n hfind
    refine (fresh_runAlone_start ops r s).mem_sync_of_declared r hper _ ?_ (hnodes.mem_iff.2 hmem) ?_
      (hhosts n hmem t ht)
    · intro m hm m' hm' u hu hu'
      have hm := hnodes.mem_iff.1 hm
      have hm' := hnodes.mem_iff.1 hm'
      rw [hseeds m hm] at hu
      rw [hseeds m' hm'] at hu'
      rw [hapart m hm m' hm' u hu hu']
    · rw [hseeds n hmem]
      exact ht
  refine ⟨hsound, fun name => ⟨hbacked name, fun hno => hno.elim, fun p hp => ?_, fun p hp => ?_⟩, ?_, ?_⟩
  · cases hp
  · cases hp
  · rintro n ⟨name, hname⟩
    obtain ⟨hm, ha, -⟩ := hbacked name n hname
    obtain rfl := hsound.keyed name n hname
    exact ⟨hm, ha, Or.inr (Option.isSome_of_mem hname)⟩
  · intro d hd
    cases hd

/-- **No two nodes ever declare a common address**, however runs and deletions are interleaved, from whatever
earlier records the runs start and whichever writes fail. -/
theorem declared_apart (hops : ops.Faithful records) (hper : r.network.perNode = true) {s : σ}
    (hkeyed : (records s).Keyed) (hmanaged : ∀ n ∈ (records s).values, n.isUnmanaged = false)
    (hadmits : ∀ n ∈ (records s).values, r.network.families.Admits (r.declaredSubnets n))
    (hhosts : ∀ n ∈ (records s).values, ∀ t ∈ r.declaredSubnets n,
      (r.start.runAlone ops (World.start s)).2.cluster.Hosts t)
    (hapart : ∀ m ∈ (records s).values, ∀ n ∈ (records s).values, ∀ t ∈ r.declaredSubnets m,
      t ∈ r.declaredSubnets n → m = n)
    {nodes : List Node} (hnodes : nodes.Perm (records s).values) {y : System σ}
    (hrun : Relation.ReflTransGen (Step r ops records) (System.start r ops records nodes s) y)
    {a b : String} {m n : Node} (ha : (records y.world.store).find? a = some m)
    (hb : (records y.world.store).find? b = some n) (hne : a ≠ b) {t u : Cidr} (ht : t ∈ r.declaredSubnets m)
    (hu : u ∈ r.declaredSubnets n) : ¬ t.Meets u := by
  have hsafe := (safe_start hops hper hkeyed hmanaged hadmits hhosts hapart hnodes).run hops hper hrun
  intro hmeets
  have hta : t ∈ y.world.cluster.allocated a := ((hsafe.tracked a).backed m ha).2.2 t ht
  have hub : u ∈ y.world.cluster.allocated b := ((hsafe.tracked b).backed n hb).2.2 u hu
  exact hne ((hsafe.sound.pools .cluster).eq_of_meets hta hub hmeets).1

/-! ## A run -/

theorem System.finishes_alone {name : String} {p : Program (Except ControlError Unit)} {y : System σ}
    (hrun : y.updates name = some p) :
    ∃ y', Relation.ReflTransGen (Step r ops records) y y' ∧ y'.world = (p.runAlone ops y.world).2 := by
  induction p generalizing y with
  | done value => exact ⟨y, .refl, rfl⟩
  | ask q next ih =>
    obtain ⟨y', hsteps, hworld⟩ := ih (q.perform ops y.world).1 (y := { y.see records (q.perform ops y.world).2 with
      updates := Function.update y.updates name (some (next (q.perform ops y.world).1)) }) (Function.update_self _ _ _)
    exact ⟨y', .head (.advance hrun) hsteps, hworld⟩

theorem System.handles_alone {n : Node} {y : System σ} (hn : n ∈ y.versions) (hidle : y.updates n.key = none) :
    ∃ y', Relation.ReflTransGen (Step r ops records) y y' ∧
      y'.world = ((r.addOrUpdate n).runAlone ops y.world).2 := by
  obtain ⟨y', hsteps, hworld⟩ := System.finishes_alone (r := r)
    (y := { y with updates := Function.update y.updates n.key (some (r.addOrUpdate n)) }) (Function.update_self _ _ _)
  exact ⟨y', .head (.begin hn hidle) hsteps, hworld⟩

/-- The node that declares nothing is handled once, and then declares another subnet than its neighbour. -/
theorem declared_apart_neighbours :
    let w := ((sample.addOrUpdate (.named "a")).runAlone ScriptedStore.refuserOps
      (sample.launch ScriptedStore.refuserOps sampleStore.1.records.values.reverse sampleStore)).2
    ∃ m n t u, w.store.1.records.find? "a" = some m ∧ w.store.1.records.find? "b" = some n ∧
      sample.declaredSubnets m = [t] ∧ sample.declaredSubnets n = [u] ∧ ¬ t.Meets u := by
  intro w
  have hversion : Node.named "a" ∈
      (System.start sample ScriptedStore.refuserOps (fun s => s.1.records) sampleStore.1.records.values.reverse
        sampleStore).versions := by
    refine ⟨"a", ?_⟩
    rw [store_launch]
    decide +kernel
  obtain ⟨y, hsteps, hworld⟩ :=
    @System.handles_alone _ ScriptedStore.refuserOps (fun s => s.1.records) sample _ _ hversion rfl
  rw [System.start_world] at hworld
  have hw : y.world = w := hworld
  have hdeclared : (w.store.1.records.find? "a").map sample.declaredSubnets =
        some [⟨.v4, 167837760, 26, by decide, by decide⟩] ∧
      (w.store.1.records.find? "b").map sample.declaredSubnets =
        some [⟨.v4, 167837696, 26, by decide, by decide⟩] := by decide +kernel
  obtain ⟨m, hm, hmt⟩ := Option.map_eq_some_iff.1 hdeclared.1
  obtain ⟨n, hn, hnu⟩ := Option.map_eq_some_iff.1 hdeclared.2
  refine ⟨m, n, _, _, hm, hn, hmt, hnu, ?_⟩
  rw [← hw] at hm hn
  exact declared_apart (r := sample) (s := sampleStore) ScriptedStore.faithful rfl sampleStore_keyed
    sampleStore_managed (by decide +kernel) (by decide +kernel) (by decide +kernel) (List.reverse_perm _) hsteps hm hn
    (by decide)
    (by rw [hmt]; exact List.mem_singleton_self _) (by rw [hnu]; exact List.mem_singleton_self _)

end HostSubnets.Reconciler
