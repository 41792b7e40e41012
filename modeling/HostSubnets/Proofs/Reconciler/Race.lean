import HostSubnets.Proofs.Pool.Contest
import HostSubnets.Proofs.Reconciler.Deletion
import HostSubnets.Proofs.Reconciler.Demand

/-!
# A run against the deletion of its node

The record of a node is gone, a run for it starts from some copy, and its deletion is handled at the same time, each
request of either a step of its own (`Race`). `cleared_iff_not_exposed` : when both are over nothing is held, in
whatever order the steps were, unless the copy is complete and the node held something before. Then the run finds
nothing to write, and as it saw the node hold subnets it does not look whether the node is still there.
-/

namespace HostSubnets

open HostSubnets.Task

/-- Nothing is held for good. -/
def Pool.Share.Quiet (v : Pool.Share) : Prop := v.cleared → v.held = ∅

theorem Pool.Share.Quiet.mayClear {v v' : Pool.Share} (h : v.Quiet) (hv : v.MayClear v') : v'.Quiet := by
  rcases hv with rfl | ⟨hheld, -, -⟩
  · exact h
  · exact fun _ => hheld

theorem Pool.Share.Ready.quiet {R : Set Family} {v : Pool.Share} (h : v.Ready R []) : v.Quiet :=
  fun hc => Set.eq_empty_iff_forall_notMem.2 fun s hs => List.not_mem_nil (h.held hc s hs)

namespace Reconciler

variable {σ : Type} {ops : StoreOps σ} {records : σ → Records} {r : Reconciler} {n : Node} {name : String}

/-! ## Shares of both pools -/

abbrev Shares := PoolName → Pool.Share

def World.shares (name : String) (cleared : PoolName → Prop) (w : World σ) : Shares :=
  fun which => (w.pool which).share name (cleared which)

def MayClear (S S' : Shares) : Prop := ∀ which, (S which).MayClear (S' which)

/-- The reply to a request for a name without a record that can have the subnets `U`, and its shares. -/
def Request.Contested (name : String) (U : PoolName → Set Cidr) : (q : Request) → Shares → q.Reply → Shares → Prop
  | .pool which q, S, reply, S' =>
    q.Contested name (U which) (S which) reply (S' which) ∧ ∀ x, x ≠ which → S' x = S x
  | .get x, S, reply, S' => S' = S ∧ (x = name → ∃ e, reply = .error e ∧ e.isNotFound = true)
  | _, S, _, S' => S' = S

/-- A sound world without a record of the name, which can have the subnets `U`. -/
structure World.Contested (records : σ → Records) (name : String) (U : PoolName → Set Cidr) (w : World σ) : Prop where
  sound : w.Sound records
  gone : (records w.store).find? name = none
  usable : ∀ which s, (w.pool which).Usable name s ↔ s ∈ U which

section Perform

variable {U : PoolName → Set Cidr} {w : World σ} (hw : w.Contested records name U) {q : Request} (hq : q.IsBy name)
include hw hq

theorem World.Contested.perform (hops : ops.Faithful records) : (q.perform ops w).2.Contested records name U := by
  have hlacks : w.Lacks records name := ⟨hw.sound.pools, hw.gone⟩
  refine ⟨hw.sound.perform hops q, (hlacks.perform hops q).gone, fun which s => ?_⟩
  rw [← hw.usable which s]
  rcases World.pool_perform ops q which w with ⟨p, rfl, hpool⟩ | hsame
  · rw [hpool]
    exact (hw.sound.pools which).usable_perform hq s
  · rw [hsame]

theorem World.Contested.contested_perform (hreports : ops.Reports records name) (cleared : PoolName → Prop) :
    q.Contested name U (w.shares name cleared) (q.perform ops w).1 ((q.perform ops w).2.shares name cleared) := by
  have hstore : ∀ s : σ, World.shares name cleared { w with store := s } = w.shares name cleared := by
    intro s
    funext which
    rw [World.shares, World.pool_withStore, World.shares]
  have hfigures : ∀ gauges clock, World.shares name cleared { w with gauges, clock } = w.shares name cleared := by
    intro gauges clock
    funext which
    rw [World.shares, World.pool_figures, World.shares]
  cases q with
  | pool which q =>
    have hU : U which = {s | (w.pool which).Usable name s} := Set.ext fun s => (hw.usable which s).symm
    have hpool : ∀ x, (w.setPool which (q.perform (w.pool which)).2).shares name cleared x =
        (if x = which then (q.perform (w.pool which)).2 else w.pool x).share name (cleared x) := by
      intro x
      rw [World.shares, World.pool_setPool]
    refine ⟨?_, fun x hx => (hpool x).trans ?_⟩
    · show q.Contested name (U which) _ _ ((w.setPool which (q.perform (w.pool which)).2).shares name cleared which)
      rw [hpool which, if_pos rfl, hU]
      exact (hw.sound.pools which).contested_perform hq (cleared which)
    · rw [if_neg hx]
      rfl
  | get x =>
    refine ⟨hstore _, ?_⟩
    rintro rfl
    exact hreports w.store hw.gone
  | list selector => exact hstore _
  | write m => exact hstore _
  | pause delay jitter => exact hfigures _ _
  | recordCapacity figures => exact hfigures _ _
  | recordAllocated figures => exact hfigures _ _

end Perform

/-! ## Programs while everything may be given back -/

def QuietBut (which : PoolName) (S : Shares) : Prop := ∀ x, x ≠ which → (S x).Quiet

def AllQuiet (S : Shares) : Prop := ∀ x, (S x).Quiet

theorem AllQuiet.mayClear {S S' : Shares} (h : AllQuiet S) (hS : MayClear S S') : AllQuiet S' :=
  fun x => (h x).mayClear (hS x)

theorem QuietBut.mayClear {which : PoolName} {S S' : Shares} (h : QuietBut which S) (hS : MayClear S S') :
    QuietBut which S' := fun x hx => (h x hx).mayClear (hS x)

theorem QuietBut.step {which : PoolName} {S S₁ S' : Shares} (h : QuietBut which S) (hS : MayClear S S₁)
    (hothers : ∀ x, x ≠ which → S' x = S₁ x) : QuietBut which S' := by
  intro x hx
  rw [hothers x hx]
  exact h.mayClear hS x hx

theorem Shares.eq_of_others {S S' : Shares} (which : PoolName) (hself : S' which = S which)
    (hothers : ∀ x, x ≠ which → S' x = S x) : S' = S := by
  funext x
  by_cases hx : x = which
  · rw [hx]
    exact hself
  · exact hothers x hx

theorem QuietBut.allQuiet {which : PoolName} {S : Shares} (h : QuietBut which S) (hself : (S which).Quiet) :
    AllQuiet S := by
  intro x
  by_cases hx : x = which
  · exact hx ▸ hself
  · exact h x hx

section Programs

variable {U : PoolName → Set Cidr} {which : PoolName} {S : Shares}

theorem contested_onPool {α : Type} {program : Pool.Program α} {post : α → Pool.Share → Prop}
    (h : program.Always (After Pool.Share.MayClear (Pool.Request.Contested name (U which))) (fun _ => True) post
      (S which)) (hS : QuietBut which S) :
    (onPool which program).Always (After MayClear (Request.Contested name U)) (fun _ => True)
      (fun a S' => post a (S' which) ∧ QuietBut which S') S := by
  induction program generalizing S with
  | done value => exact ⟨h, hS⟩
  | ask q next ih =>
    rintro reply S' ⟨S₁, hclear, hstep, hothers⟩
    exact ⟨trivial, ih reply (h reply (S' which) ⟨S₁ which, hclear which, hstep⟩).2 (hS.step hclear hothers)⟩

theorem releaseAll_contested (hS : QuietBut which S) :
    (askPool which (.releaseAll name) >>= fun _ => pure () : Program Unit).Always
      (After MayClear (Request.Contested name U)) (fun _ => True) (fun _ S' => AllQuiet S') S := by
  rw [always_bind]
  rintro reply S' ⟨S₁, hclear, hstep, hothers⟩
  exact ⟨trivial, (hS.step hclear hothers).allQuiet fun _ => (hstep rfl).2⟩

theorem releaseVanished_contested (hS : QuietBut which S) :
    (releaseVanished which name).Always (After MayClear (Request.Contested name U)) (fun _ => True)
      (fun _ S' => AllQuiet S') S := by
  unfold releaseVanished
  rw [always_bind]
  rintro reply S' ⟨S₁, hclear, rfl, hmissing⟩
  obtain ⟨e, rfl, he⟩ := hmissing rfl
  refine ⟨trivial, ?_⟩
  change Always _ _ _ (if e.isNotFound = true then _ else _) _
  rw [if_pos he]
  exact releaseAll_contested (hS.mayClear hclear)

theorem undo_contested {allocated : List Cidr} {e : ControlError} (he : e.isNotFound = true) (hS : QuietBut which S) :
    (undo which name allocated e).Always (After MayClear (Request.Contested name U)) (fun _ => True)
      (fun _ S' => AllQuiet S') S := by
  rw [undo_eq, if_pos he, always_bind]
  by_cases hnew : allocated ≠ []
  · rw [if_pos hnew, always_bind]
    rintro reply S' ⟨S₁, hclear, hstep, hothers⟩
    exact ⟨trivial, releaseAll_contested (hS.step hclear hothers)⟩
  · rw [if_neg hnew]
    exact releaseAll_contested hS

theorem update_contested (change : TextMap → Except AnnotationError TextMap) (hS : QuietBut which S) :
    (r.update name change).Always (After MayClear (Request.Contested name U)) (fun _ => True)
      (fun result S' => (∃ e, result = .error e ∧ e.isNotFound = true) ∧ QuietBut which S') S := by
  have hattempt : ∀ S : Shares, QuietBut which S →
      (tryUpdate name change).Always (After MayClear (Request.Contested name U)) (fun _ => True)
        (fun result S' => ((∃ e, result = .error e ∧ e.isNotFound = true) ∧ QuietBut which S') ∧
          ∀ e, result = .error e → QuietBut which S') S := by
    intro S hS
    unfold tryUpdate
    rw [always_bind]
    rintro reply S' ⟨S₁, hclear, rfl, hmissing⟩
    obtain ⟨e, rfl, he⟩ := hmissing rfl
    exact ⟨trivial, ⟨⟨_, rfl, he⟩, hS.mayClear hclear⟩, fun _ _ => hS.mayClear hclear⟩
  have hpause : ∀ delay (S : Shares), QuietBut which S →
      (ask (.pause delay r.backoff.jitter) : Program Unit).Always (After MayClear (Request.Contested name U))
        (fun _ => True) (fun _ S' => QuietBut which S') S := by
    rintro delay S hS reply S' ⟨S₁, hclear, rfl⟩
    exact ⟨trivial, hS.mayClear hclear⟩
  unfold update
  rw [always_bind]
  refine (retry_always hattempt hpause hS).imp ?_
  rintro result S' ⟨⟨e, rfl, he⟩, hS'⟩
  exact ⟨⟨_, rfl, he⟩, hS'⟩

theorem writeOrUndo_contested (change : TextMap → TextMap) (allocated : List Cidr) (hS : QuietBut which S) :
    (r.writeOrUndo which name change allocated).Always (After MayClear (Request.Contested name U)) (fun _ => True)
      (fun _ S' => AllQuiet S') S := by
  unfold writeOrUndo
  rw [always_bind]
  refine (update_contested _ hS).imp ?_
  rintro result S' ⟨⟨e, rfl, he⟩, hS'⟩
  exact (always_bind _ _ _).2 ((undo_contested he hS').imp fun _ _ h => h)

theorem thenRecord_contested (result : Except ControlError Unit) (hS : AllQuiet S) :
    (r.thenRecord result).Always (After MayClear (Request.Contested name U)) (fun _ => True)
      (fun _ S' => AllQuiet S') S := by
  cases result with
  | error e => exact hS
  | ok _ =>
    refine (always_bind _ _ _).2 ?_
    unfold recordCapacity
    split
    · exact hS
    · rw [always_bind]
      rintro figures S' ⟨S₁, hclear, hstep, hothers⟩
      obtain rfl := Shares.eq_of_others .cluster hstep hothers
      refine ⟨trivial, ?_⟩
      rintro _ S'' ⟨S₂, hclear', rfl⟩
      exact ⟨trivial, (hS.mayClear hclear).mayClear hclear'⟩

/-- **After the settling**, what is held for good is released, or was none to begin with. -/
theorem finish_contested {held : List Cidr} {a : Pool.Assignment} {d : Demand} (hd : r.demand? n = some d)
    (hserves : d.families.Serves a.subnets)
    (hconfirms : r.Confirms n a → held = [] ∧ a.subnets ≠ [] ∨ (S d.pool).Quiet) (hS : QuietBut d.pool S) :
    (r.finish n held a).Always (After MayClear (Request.Contested n.key U)) (fun _ => True)
      (fun _ S' => AllQuiet S') S := by
  by_cases hshown : r.Confirms n a
  · rw [finish_confirmed hd hserves hshown, always_bind]
    split
    · exact (releaseVanished_contested hS).imp fun _ _ h => h
    · rename_i hnot
      exact hS.allQuiet ((hconfirms hshown).resolve_left hnot)
  · rw [finish_unconfirmed hd hserves hshown]
    exact writeOrUndo_contested _ _ hS

theorem unsettled_contested (hd : r.demand? n = none) (hS : AllQuiet S) :
    (r.addOrUpdate n).Always (After MayClear (Request.Contested n.key U)) (fun _ => True) (fun _ S' => AllQuiet S')
      S := by
  rcases demand?_none_cases hd with ⟨hn, hper⟩ | ⟨hn, hserves⟩
  · rw [addOrUpdate_managed hn, always_bind, syncManaged_shared hper, always_bind]
    rintro held S' ⟨S₁, hclear, ⟨hself, -⟩, hothers⟩
    obtain rfl := Shares.eq_of_others .cluster hself hothers
    have hS' := hS.mayClear hclear
    refine ⟨trivial, ?_⟩
    show Always _ _ _ (r.conclude n held none) S'
    have hend : (r.conclude n held none).Always (After MayClear (Request.Contested n.key U)) (fun _ => True)
        (fun _ S'' => AllQuiet S'') S' := by
      unfold conclude
      simp only [Option.map_none, Option.any_none, Option.getD_none]
      split
      · rw [always_bind, if_neg (by simp)]
        exact hS'
      · exact writeOrUndo_contested _ _ fun x _ => hS' x
    exact hend.imp fun result S'' hS'' => thenRecord_contested result hS''
  · rw [addOrUpdate_skipped hn hserves]
    exact thenRecord_contested (.ok ()) hS

end Programs

/-! ## A run -/

/-- Whether a copy is complete while the node holds something: a run from it may look before a deletion, and mark
after it. -/
def Exposed (r : Reconciler) (n : Node) (w : World σ) : Prop :=
  ∃ d, r.demand? n = some d ∧ (w.pool d.pool).allocated n.key ≠ [] ∧ d.existing ≠ [] ∧ r.Complete n d (w.pool d.pool)

/-- **A run beside a deletion**: nothing is held for good at its end, unless it was exposed. -/
theorem addOrUpdate_contested {w : World σ} {cleared : PoolName → Prop}
    (hcleared : ∀ which, cleared which → (w.pool which).heldBy n.key = ∅)
    (henough : ∀ d, r.demand? n = some d → ¬ (w.pool d.pool).Starved n.key d.families d.existing)
    (hsafe : ¬ r.Exposed n w) :
    (r.addOrUpdate n).Always
      (After MayClear (Request.Contested n.key fun which => {s | (w.pool which).Usable n.key s})) (fun _ => True)
      (fun _ S' => AllQuiet S') (w.shares n.key cleared) := by
  have hquiet : AllQuiet (w.shares n.key cleared) := hcleared
  cases hd : r.demand? n with
  | none => exact unsettled_contested hd hquiet
  | some d =>
    rw [addOrUpdate_eq hd, always_bind]
    unfold settleAndFinish
    rw [always_bind]
    rintro held S ⟨S₁, hclear, ⟨hself, hlook⟩, hothers⟩
    obtain rfl := Shares.eq_of_others d.pool hself hothers
    -- what the look shows was held before, or the deletion has struck
    have hheld : held ≠ [] → (w.pool d.pool).allocated n.key ≠ [] := by
      intro hne hnone
      obtain ⟨s, hs⟩ := List.exists_mem_of_ne_nil held hne
      have hmem := (hlook rfl s).1 hs
      rcases hclear d.pool with hsame | ⟨hempty, -, -⟩
      · rw [hsame] at hmem
        have hold : s ∈ (w.pool d.pool).allocated n.key := hmem
        rw [hnone] at hold
        cases hold
      · rw [hempty] at hmem
        exact hmem
    have hroom : ∀ f, ¬ (w.pool d.pool).Full f → f ∈ (S d.pool).room := by
      intro f hf
      rcases hclear d.pool with hsame | ⟨-, -, hroom⟩
      · rw [hsame]
        exact hf
      · exact hroom hf
    have hS := hquiet.mayClear hclear
    unfold afterLook
    refine ⟨trivial, (always_bind _ _ _).2 ?_⟩
    refine (contested_onPool (Pool.reconcile_contested (henough d hd) hroom (hS d.pool)) fun x _ => hS x).imp ?_
    rintro result S' ⟨⟨a, rfl, ha, hready⟩, hS'⟩
    have hnothing : a.subnets = [] → (S' d.pool).Quiet := fun hnil => Pool.Share.Ready.quiet (hnil ▸ hready)
    refine (finish_contested hd ha.serves (fun hconfirms => ?_) hS').imp fun result S'' hS'' => ?_
    · have hcomplete := (confirms_iff hd ha).1 hconfirms
      by_cases hnil : a.subnets = []
      · exact Or.inr (hnothing hnil)
      · by_cases hempty : held = []
        · exact Or.inl ⟨hempty, hnil⟩
        · refine absurd ⟨d, hd, hheld hempty, fun hexisting => hnil ?_, hcomplete⟩ hsafe
          have hperm := (perm_existing_iff ha).2 ⟨hcomplete.1, hcomplete.2.1, hcomplete.2.2.1⟩
          rw [hexisting] at hperm
          exact hperm.eq_nil
    · exact thenRecord_contested result hS''

/-! ## A deletion -/

/-- For the run it is as if everything was given back. -/
theorem Request.Clears.mayClear {U : PoolName → Set Cidr} {w : World σ} (hw : w.Contested records name U) {q : Request}
    (hq : q.Clears name) (cleared : PoolName → Prop) :
    MayClear (w.shares name cleared) ((q.perform ops w).2.shares name (q.clear cleared)) := by
  cases q with
  | pool which q =>
    cases q with
    | releaseAll o =>
      obtain rfl : o = name := hq
      intro x
      show Pool.Share.MayClear _ (((w.setPool which ((w.pool which).releaseAll o).2).pool x).share o
        (Function.update cleared which True x))
      rw [World.pool_setPool]
      by_cases hx : x = which
      · subst hx
        rw [if_pos rfl, Function.update_self]
        refine Or.inr ⟨((hw.sound.pools x).seen_releaseAll o o).trans (if_pos rfl), trivial, fun f hf hfull => ?_⟩
        exact hf (Pool.full_of_full_releaseAll hfull)
      · rw [if_neg hx, Function.update_of_ne hx]
        exact Pool.Share.MayClear.refl _
    | count =>
      intro x
      have hsame : ((Request.pool which .count).perform ops w).2 = w := setPool_pool which w
      rw [hsame]
      exact Pool.Share.MayClear.refl _
    | _ => exact hq.elim
  | recordCapacity figures =>
    intro x
    show Pool.Share.MayClear _ ((World.pool { w with gauges := _, clock := w.clock } x).share name (cleared x))
    rw [World.pool_figures]
    exact Pool.Share.MayClear.refl _
  | _ => exact hq.elim

/-! ## Both at the same time -/

/-- What is left of a run and of a deletion. -/
structure Race (σ : Type) where
  world : World σ
  update : Program (Except ControlError Unit)
  deletion : Program Unit

inductive Race.Step (ops : StoreOps σ) : Race σ → Race σ → Prop where
  | update {y : Race σ} {q : Request} {next : q.Reply → Program (Except ControlError Unit)}
      (h : y.update = .ask q next) :
      Step ops y { y with world := (q.perform ops y.world).2, update := next (q.perform ops y.world).1 }
  | deletion {y : Race σ} {q : Request} {next : q.Reply → Program Unit} (h : y.deletion = .ask q next) :
      Step ops y { y with world := (q.perform ops y.world).2, deletion := next (q.perform ops y.world).1 }

namespace Race

def start (r : Reconciler) (n : Node) (w : World σ) : Race σ := ⟨w, r.addOrUpdate n, r.delete n.key⟩

def Over (y : Race σ) : Prop := ∃ result, y.update = .done result ∧ y.deletion = .done ()

/-- The run is followed on shares from which the deletion has led to the present ones. -/
structure Followed (records : σ → Records) (name : String) (U : PoolName → Set Cidr) (y : Race σ) : Prop where
  world : y.world.Contested records name U
  updates : y.update.Only (Request.IsBy name) Request.Named
  deletes : y.deletion.Only (Request.Clears name) fun _ _ => True
  follows : ∃ S C, MayClear S (y.world.shares name C) ∧
    y.update.Always (After MayClear (Request.Contested name U)) (fun _ => True) (fun _ S' => AllQuiet S') S ∧
      y.deletion.Always Request.ClearStep (fun _ => True) (fun _ C => ∀ which, C which) C

variable {U : PoolName → Set Cidr} {y y' : Race σ}

theorem Followed.step (hops : ops.Faithful records) (hreports : ops.Reports records name)
    (h : y.Followed records name U) (hstep : Step ops y y') : y'.Followed records name U := by
  obtain ⟨hworld, hupdates, hdeletes, S, C, hclear, hupdate, hdeletion⟩ := h
  cases hstep with
  | @update q next hq =>
    rw [hq] at hupdates hupdate
    have hseen := hworld.contested_perform hupdates.1 hreports C
    refine ⟨hworld.perform hupdates.1 hops, hupdates.2 _ (hworld.sound.named_perform hops q), hdeletes, _, C,
      fun which => Pool.Share.MayClear.refl _, ?_, hdeletion⟩
    exact (hupdate _ _ ⟨_, hclear, hseen⟩).2
  | @deletion q next hq =>
    rw [hq] at hdeletes hdeletion
    have hafter : MayClear (y.world.shares name C) ((q.perform ops y.world).2.shares name (q.clear C)) :=
      hdeletes.1.mayClear hworld C
    refine ⟨hworld.perform hdeletes.1.isBy hops, hupdates, hdeletes.2 _ trivial, S, q.clear C, fun which => ?_, hupdate, ?_⟩
    · exact (hclear which).trans (hafter which)
    · exact (hdeletion (q.perform ops y.world).1 _ rfl).2

theorem Followed.run (hops : ops.Faithful records) (hreports : ops.Reports records name)
    (h : y.Followed records name U) (hrun : Relation.ReflTransGen (Step ops) y y') : y'.Followed records name U := by
  induction hrun with
  | refl => exact h
  | tail _ hstep ih => exact ih.step hops hreports hstep

theorem Followed.over (h : y.Followed records name U) (hover : y.Over) (which : PoolName) :
    (y.world.pool which).allocated name = [] := by
  obtain ⟨-, -, -, S, C, hclear, hupdate, hdeletion⟩ := h
  obtain ⟨result, hdone, hgone⟩ := hover
  rw [hdone] at hupdate
  rw [hgone] at hdeletion
  have hcleared : ∀ x, C x := hdeletion
  have hquiet : AllQuiet S := hupdate
  exact allocated_eq_nil_iff.2 (((hquiet which).mayClear (hclear which)) (hcleared which))

theorem update_alone (ops : StoreOps σ) (y : Race σ) :
    Relation.ReflTransGen (Step ops) y
      ⟨(y.update.runAlone ops y.world).2, .done (y.update.runAlone ops y.world).1, y.deletion⟩ := by
  obtain ⟨w, update, deletion⟩ := y
  exact steps_run (fun update w => (⟨w, update, deletion⟩ : Race σ)) (fun q next w => .update rfl) update w

theorem deletion_alone (ops : StoreOps σ) (y : Race σ) :
    Relation.ReflTransGen (Step ops) y ⟨(y.deletion.runAlone ops y.world).2, y.update, .done ()⟩ := by
  obtain ⟨w, update, deletion⟩ := y
  exact steps_run (fun deletion w => (⟨w, update, deletion⟩ : Race σ)) (fun q next w => .deletion rfl) deletion w

/-- The look may come first, then the whole deletion, then the rest of the run. -/
theorem look_first (ops : StoreOps σ) {d : Demand} (hd : r.demand? n = some d) (w : World σ) :
    ∃ y, Relation.ReflTransGen (Step ops) (start r n w) y ∧ y.Over ∧
      y.world = (Program.runAlone ops (r.afterLook n d ((w.pool d.pool).allocated n.key) >>= r.thenRecord)
        ((r.delete n.key).runAlone ops w).2).2 := by
  have hsame : ((Request.pool d.pool (.allocated n.key)).perform ops w).2 = w := setPool_pool d.pool w
  have hlook : Step ops (start r n w) ⟨((Request.pool d.pool (.allocated n.key)).perform ops w).2,
      r.afterLook n d ((w.pool d.pool).allocated n.key) >>= r.thenRecord, r.delete n.key⟩ :=
    @Step.update σ ops (start r n w) (.pool d.pool (.allocated n.key))
      (fun held => r.afterLook n d held >>= r.thenRecord) (addOrUpdate_eq hd)
  rw [hsame] at hlook
  exact ⟨_, .head hlook ((deletion_alone ops _).trans (update_alone ops _)), ⟨_, rfl, rfl⟩, rfl⟩

end Race

/-! ## The order that goes wrong -/

theorem World.Contested.runAlone (hops : ops.Faithful records) {U : PoolName → Set Cidr} {w : World σ}
    (hw : w.Contested records name U) {α : Type} {program : Program α}
    (h : program.Only (Request.IsBy name) Request.Named) : (program.runAlone ops w).2.Contested records name U :=
  h.run (fun q _ hq hw' => ⟨hw'.perform hq hops, hw'.sound.named_perform hops q⟩) hw

theorem Complete.congr {d : Demand} {p q : Pool} (h : r.Complete n d p)
    (husable : ∀ s, q.Usable n.key s ↔ p.Usable n.key s) : r.Complete n d q := by
  have hpick : ∀ f, q.pick n.key d.existing f = p.pick n.key d.existing f := by
    intro f
    unfold Pool.pick
    simp only [husable]
  unfold Complete Pool.Retains at h ⊢
  simp only [hpick]
  exact h

theorem held_afterLook (hops : ops.Faithful records) {w : World σ} (hw : w.Sound records) {d : Demand}
    (hd : r.demand? n = some d) (hcomplete : r.Complete n d (w.pool d.pool)) {held : List Cidr} (hheld : held ≠ []) :
    ∀ s ∈ d.existing,
      s ∈ ((Program.runAlone ops (r.afterLook n d held >>= r.thenRecord) w).2.pool d.pool).allocated n.key := by
  have hreconcile := Pool.reconcile_settles (hw.pools d.pool) n.key d.families d.existing
  have hsound := Sound.runAlone hops hw (r.afterLook n d held)
  rw [runAlone_bind]
  have hsettled : ∀ s ∈ d.existing, s ∈ (((r.afterLook n d held).runAlone ops w).2.pool d.pool).allocated n.key := by
    unfold afterLook
    rw [runAlone_bind, runAlone_onPool]
    generalize (Pool.reconcile n.key d.existing d.families).runAlone (w.pool d.pool) = run at hreconcile
    obtain ⟨result, q⟩ := run
    obtain ⟨-, hresult⟩ := hreconcile
    cases result with
    | error e =>
      obtain ⟨f, hf, hnone, -⟩ := hresult.1
      have hsome := hcomplete.1 f hf
      rw [hnone] at hsome
      cases hsome
    | ok a =>
      obtain ⟨-, ha, hafter⟩ := hresult
      have hconfirms : r.Confirms n a := (confirms_iff hd ha.toFits).2 hcomplete
      dsimp only
      rw [finish_of_confirms hd hheld ha.serves hconfirms]
      intro s hs
      show s ∈ ((w.setPool d.pool q).pool d.pool).allocated n.key
      rw [World.pool_setPool, if_pos rfl]
      exact (hafter s).2 (Or.inl (Or.inr (hcomplete.2.2.1 s hs)))
  obtain ⟨-, hview⟩ := runAlone_thenRecord (r := r) hops hsound ((r.afterLook n d held).runAlone ops w).1 d.pool n.key
  exact fun s hs => (Set.ext_iff.1 (congrArg View.held hview) s).2 (hsettled s hs)

/-- **A deletion beside a run from any copy leaves nothing, in whatever order their steps come, exactly if the run is
not exposed.** The record of the node is gone, and no family is short of subnets. If the copy declares just the subnets
that the node is to have, and the node held something before, one order leaves the declared subnets reserved. -/
theorem cleared_iff_not_exposed (hops : ops.Faithful records) (hreports : ops.Reports records n.key) {w : World σ}
    (hw : w.Sound records) (hgone : (records w.store).find? n.key = none)
    (hunused : ∀ which, r.uses which = false → (w.pool which).allocated n.key = [])
    (henough : ∀ d, r.demand? n = some d → ¬ (w.pool d.pool).Starved n.key d.families d.existing) :
    (∀ y, Relation.ReflTransGen (Race.Step ops) (Race.start r n w) y → y.Over →
        ∀ which, (y.world.pool which).allocated n.key = []) ↔ ¬ r.Exposed n w := by
  have hcontested : w.Contested records n.key fun which => {s | (w.pool which).Usable n.key s} :=
    ⟨hw, hgone, fun _ _ => Iff.rfl⟩
  constructor
  · rintro hall ⟨d, hd, hheld, hexisting, hcomplete⟩
    have hdeleted := hcontested.runAlone hops (delete_only r n.key)
    have hsame : r.Complete n d (((r.delete n.key).runAlone ops w).2.pool d.pool) :=
      hcomplete.congr fun s => hdeleted.usable d.pool s
    obtain ⟨s, hs⟩ := List.exists_mem_of_ne_nil d.existing hexisting
    have hmem := held_afterLook hops hdeleted.sound hd hsame hheld s hs
    obtain ⟨y, hrun, hover, hworld⟩ := Race.look_first ops hd w
    have hnone := hall y hrun hover d.pool
    rw [hworld] at hnone
    rw [hnone] at hmem
    cases hmem
  · intro hsafe y hrun hover which
    have hstart : (Race.start r n w).Followed records n.key fun which => {s | (w.pool which).Usable n.key s} :=
      ⟨hcontested, addOrUpdate_only r n, delete_clears r n.key, _, _, fun _ => Pool.Share.MayClear.refl _,
        addOrUpdate_contested (fun x hx => allocated_eq_nil_iff.1 (hunused x hx)) henough hsafe, delete_cleared r n.key⟩
    exact (hstart.run hops hreports hrun).over hover which

/-! ## Two copies of a removed node -/

/-- A node with the first subnet of the sample network, as its run writes it. -/
def settledNode : Node :=
  { Node.named "a" with annotations := some ((TextMap.setSubnets Network.defaultName
      [lowerSubnet] .empty).setNetworkId Network.defaultName Network.defaultId) }

/-- That node was synced, and its record is gone. -/
def afterRemoval : World Records :=
  { sample.launch Records.ops [settledNode] (Records.put settledNode .empty) with store := .empty }

/-- Its last record, in the order that goes wrong: the run looks, the deletion is handled, and the run reserves the
declared subnet again. -/
theorem settledNode_races :
    afterRemoval.store.find? "a" = none ∧
      ¬ afterRemoval.cluster.Starved "a" sample.network.families (sample.declaredSubnets settledNode) ∧
        ∃ y, Relation.ReflTransGen (Race.Step Records.ops) (Race.start sample settledNode afterRemoval) y ∧ y.Over ∧
          y.world.cluster.allocated "a" = sample.declaredSubnets settledNode ∧ sample.declaredSubnets settledNode ≠ [] := by
  have hd : sample.demand? settledNode = some ⟨.cluster, sample.network.families, sample.declaredSubnets settledNode⟩ := by
    decide +kernel
  obtain ⟨y, hrun, hover, hworld⟩ := Race.look_first Records.ops hd afterRemoval
  refine ⟨by decide +kernel, by decide +kernel, y, hrun, hover, ?_, by decide +kernel⟩
  rw [hworld]
  decide +kernel

/-- Its first record, which declared nothing: no order leaves anything reserved. -/
theorem firstRecord_cleared :
    afterRemoval.cluster.allocated "a" = [lowerSubnet] ∧
      ∀ y, Relation.ReflTransGen (Race.Step Records.ops) (Race.start sample (.named "a") afterRemoval) y → y.Over →
        ∀ which, (y.world.pool which).allocated "a" = [] := by
  have hlaunched : (sample.launch Records.ops [settledNode] (Records.put settledNode .empty)).Sound id :=
    sound_launch Records.faithful (Records.keyed_empty.insert (n := settledNode) rfl)
  have hsound : afterRemoval.Sound id := hlaunched.withStore Records.keyed_empty
  have hunused : ∀ which, sample.uses which = false → (afterRemoval.pool which).allocated (Node.named "a").key = [] := by
    intro which
    cases which <;> decide +kernel
  have hd : sample.demand? (.named "a") = some ⟨.cluster, sample.network.families, []⟩ := by decide +kernel
  have henough : ∀ d, sample.demand? (.named "a") = some d →
      ¬ (afterRemoval.pool d.pool).Starved (Node.named "a").key d.families d.existing := by
    intro d hd'
    obtain rfl := Option.some.inj (hd.symm.trans hd')
    decide +kernel
  have hsafe : ¬ sample.Exposed (.named "a") afterRemoval := by
    rintro ⟨d, hd', -, hexisting, -⟩
    obtain rfl := Option.some.inj (hd.symm.trans hd')
    exact hexisting rfl
  have hcleared := (cleared_iff_not_exposed (n := .named "a") Records.faithful (Records.reports _) hsound rfl hunused
    henough).2 hsafe
  exact ⟨by decide +kernel, hcleared⟩

end Reconciler

end HostSubnets
