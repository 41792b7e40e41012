import HostSubnets.Cli.Settings
import HostSubnets.Proofs.Pool.Families
import HostSubnets.Proofs.Reconciler.Overlap

/-!
# Families that a configuration lacks

A node is to have a subnet of each of some families in one of the pools (`Demand`). The run for it is refused a family
exactly if its pool was given no range of it (`addOrUpdate_noRange_iff`), whatever else the reconciler is asked
meanwhile, as nothing registers ranges later (`upheld_tells`). In the cluster pool the families are those of the
ranges. In that of the overlay it is always IPv4, though settings are accepted that give the overlay other ranges alone
(`ControllerSettings.Misfit`). With these, and only these, there are runs that are refused (`refused_iff_misfit`).
-/

namespace HostSubnets

open HostSubnets.Task

/-! ## Accepted settings -/

/-- The hybrid overlay is in use and has no range of IPv4. -/
def ControllerSettings.Misfit (s : ControllerSettings) : Prop :=
  s.network.secondary = false ∧ s.enableOverlay = true ∧ ∀ range ∈ s.overlayRanges, range.family ≠ .v4

instance (s : ControllerSettings) : Decidable s.Misfit := inferInstanceAs (Decidable (_ ∧ _ ∧ _))

theorem NetworkSettings.of_network {s : NetworkSettings} {network : Network} (h : s.network = .ok network) :
    network.secondary = s.secondary ∧ network.families = .ofRanges network.clusterRanges := by
  have hcontext : s.context = .ok network := by
    unfold NetworkSettings.network at h
    split at h
    · cases h
    · rename_i n hn
      split at h
      · cases h
      · rw [hn, Except.ok.inj h]
  unfold context at hcontext
  split at hcontext
  · rename_i hsecondary
    obtain rfl := Except.ok.inj hcontext
    exact ⟨hsecondary.symm, rfl⟩
  · rename_i hdefault
    split at hcontext
    · cases hcontext
    · obtain rfl := Except.ok.inj hcontext
      exact ⟨(Bool.eq_false_iff.2 hdefault).symm, rfl⟩

theorem ControllerSettings.of_overlay {s : ControllerSettings} {overlay : HybridOverlay} (h : s.overlay = .ok overlay) :
    overlay = ⟨s.enableOverlay, s.overlayRanges⟩ := by
  unfold ControllerSettings.overlay at h
  split at h
  · cases h
  · exact (Except.ok.inj h).symm

namespace Reconciler

variable {σ : Type} {ops : StoreOps σ} {records : σ → Records} {r : Reconciler} {n : Node} {w : World σ}
  {has : PoolName → Family → Bool} {f : Family}

/-! ## Replies -/

def World.ranged (w : World σ) (which : PoolName) : Family → Bool := (w.pool which).ranged

/-- A reply where the pools have ranges of these families. -/
def Request.Answers (has : PoolName → Family → Bool) : (q : Request) → q.Reply → Prop
  | .pool which q, reply => q.Answers (has which) reply
  | _, _ => True

theorem answers_perform (ops : StoreOps σ) (q : Request) (w : World σ) : q.Answers w.ranged (q.perform ops w).1 := by
  cases q with
  | pool which q => exact Pool.answers_perform q (w.pool which)
  | _ => exact trivial

theorem World.ranged_perform (ops : StoreOps σ) (hw : ∀ which, (w.pool which).Coherent) {q : Request}
    (hq : q.ForName) : (q.perform ops w).2.ranged = w.ranged := by
  obtain ⟨name, hq⟩ := hq
  funext which
  unfold World.ranged
  rcases World.pool_perform ops q which w with ⟨p, rfl, hpool⟩ | hsame
  · rw [hpool]
    exact (hw which).ranged_perform hq
  · rw [hsame]

theorem yields_onPool {α : Type} {which : PoolName} {post : α → Prop} {program : Pool.Program α}
    (h : program.Yields (Pool.Request.Answers (has which)) post) :
    (onPool which program).Yields (Request.Answers has) post := by
  induction program with
  | done value => exact h
  | ask q next ih => exact fun reply hreply => ih reply (h reply hreply)

/-! ## A run for a node -/

/-- The first family that a node is to have a subnet of and its pool has no range of. -/
def lacking (r : Reconciler) (has : PoolName → Family → Bool) (n : Node) : Option Family :=
  (r.demand? n).bind fun d => d.families.lacking (has d.pool)

section Ends

variable {ok : (q : Request) → q.Reply → Prop}

theorem update_yields (r : Reconciler) (name : String) (change : TextMap → Except AnnotationError TextMap) :
    (r.update name change).Yields ok fun result => ∀ e, result ≠ .error (.pool e) := by
  unfold update
  refine yields_bind_of_forall _ fun result => ?_
  cases result with
  | ok _ => exact fun e h => by cases h
  | error e => exact fun e h => by cases h

theorem writeOrUndo_yields (r : Reconciler) (which : PoolName) (name : String) (change : TextMap → TextMap)
    (allocated : List Cidr) :
    (r.writeOrUndo which name change allocated).Yields ok fun result => ∀ e, result ≠ .error (.pool e) := by
  unfold writeOrUndo
  refine (yields_bind _ _).2 ((update_yields r name _).imp fun result hresult => ?_)
  cases result with
  | ok _ => exact fun e h => by cases h
  | error e => exact yields_bind_of_forall _ fun _ => hresult

theorem conclude_yields (r : Reconciler) (n : Node) (held : List Cidr) (settled : Option Pool.Assignment) :
    (r.conclude n held settled).Yields ok fun result => ∀ e, result ≠ .error (.pool e) := by
  dsimp only [conclude]
  split
  · exact yields_bind_of_forall _ fun _ e h => by cases h
  · exact writeOrUndo_yields r .cluster n.key _ _

theorem concludeOverlay_yields (r : Reconciler) (n : Node) (held : List Cidr) (a : Pool.Assignment) :
    (r.concludeOverlay n held a).Yields ok fun result => ∀ e, result ≠ .error (.pool e) := by
  unfold concludeOverlay
  split
  · exact fun e h => by cases h
  · split
    · exact yields_bind_of_forall _ fun _ e h => by cases h
    · exact writeOrUndo_yields r .overlay n.key _ _

theorem thenRecord_yields (r : Reconciler) (result : Except ControlError Unit) :
    (r.thenRecord result).Yields ok fun result' => result' = result := by
  cases result with
  | error e => exact rfl
  | ok _ => exact yields_bind_of_forall _ fun _ => rfl

end Ends

theorem settleAndFinish_yields {d : Demand} (n : Node) :
    (r.settleAndFinish n d).Yields (Request.Answers has) fun result =>
      ∀ f, result = .error (.pool (.noRange f)) ↔ d.families.lacking (has d.pool) = some f := by
  unfold settleAndFinish
  refine yields_bind_of_forall _ fun held => ?_
  unfold afterLook
  refine (yields_bind _ _).2 ((yields_onPool (Pool.reconcile_noRange_iff n.key d.existing d.families _)).imp ?_)
  intro result hresult
  cases result with
  | error e =>
    intro f
    rw [← hresult f]
    simp
  | ok a =>
    have hserved : ∀ f, d.families.lacking (has d.pool) ≠ some f := fun f hf => by cases (hresult f).2 hf
    have hfinish : (r.finish n held a).Yields (Request.Answers has) fun result => ∀ e, result ≠ .error (.pool e) := by
      unfold finish
      split
      · exact conclude_yields r n held (some a)
      · exact concludeOverlay_yields r n held a
    exact hfinish.imp fun result hno f => iff_of_false (hno _) (hserved f)

/-- **A run for a node is refused a family exactly if the pool of the node lacks it**, whatever happens meanwhile. -/
theorem addOrUpdate_noRange_iff (r : Reconciler) (has : PoolName → Family → Bool) (n : Node) :
    (r.addOrUpdate n).Yields (Request.Answers has) fun result =>
      ∀ f, result = .error (.pool (.noRange f)) ↔ r.lacking has n = some f := by
  have hrecord : ∀ {program : Program (Except ControlError Unit)} {post : Except ControlError Unit → Prop},
      program.Yields (Request.Answers has) post → (program >>= r.thenRecord).Yields (Request.Answers has) post := by
    intro program post hprogram
    refine (yields_bind _ _).2 (hprogram.imp fun result hresult => ?_)
    refine (thenRecord_yields r result).imp ?_
    rintro _ rfl
    exact hresult
  unfold lacking
  cases hd : r.demand? n with
  | some d =>
    rw [addOrUpdate_eq hd]
    exact hrecord (settleAndFinish_yields n)
  | none =>
    have hnone : ∀ result : Except ControlError Unit, (∀ e, result ≠ .error (.pool e)) →
        ∀ f, result = .error (.pool (.noRange f)) ↔ none = some f :=
      fun result hno f => iff_of_false (hno _) (by simp)
    rcases demand?_none_cases hd with ⟨hmanaged, hshared⟩ | ⟨hunmanaged, hserved⟩
    · rw [addOrUpdate_managed hmanaged, syncManaged_shared hshared]
      refine hrecord (yields_bind_of_forall _ fun held => ?_)
      exact (conclude_yields r n held none).imp hnone
    · rw [addOrUpdate_skipped hunmanaged hserved]
      refine (thenRecord_yields r (.ok ())).imp ?_
      rintro _ rfl
      exact hnone _ fun e h => by cases h

/-! ## Everything that a reconciler is asked -/

/-- Whether the result of a call says what its pool lacks. -/
def Tells (r : Reconciler) (has : PoolName → Family → Bool) (c : Call) (result : Except ControlError Unit) : Prop :=
  ∀ n, c = .addOrUpdate n → ∀ f, result = .error (.pool (.noRange f)) ↔ r.lacking has n = some f

theorem answer_tells (r : Reconciler) (has : PoolName → Family → Bool) (c : Call) :
    (r.answer c).Yields (Request.Answers has) (Tells r has c) := by
  cases c with
  | addOrUpdate n =>
    refine (addOrUpdate_noRange_iff r has n).imp fun result hresult m hm => ?_
    cases hm
    exact hresult
  | _ => exact yields_of_forall _ fun _ _ h => by cases h

/-- What is left of a call registers nothing, and its result will tell what its pool lacks. -/
structure Proceeds (r : Reconciler) (has : PoolName → Family → Bool) (c : Call)
    (program : Program (Except ControlError Unit)) : Prop where
  asks : program.Only Request.ForName Request.Named
  tells : program.Yields (Request.Answers has) (Tells r has c)

structure World.Ranged (records : σ → Records) (has : PoolName → Family → Bool) (w : World σ) : Prop where
  sound : w.Sound records
  ranged : w.ranged = has

/-- **Whatever a reconciler is asked, every result tells what is lacking.** -/
theorem upheld_tells (hops : ops.Faithful records) (r : Reconciler) (has : PoolName → Family → Bool) :
    Service.Upheld r.answer ops records (World.Ranged records has) (Proceeds r has) (Tells r has) where
  store := by
    intro w s hw hkeyed
    refine ⟨hw.sound.withStore hkeyed, ?_⟩
    rw [← hw.ranged]
    exact funext fun which => congrArg Pool.ranged (World.pool_withStore which w s)
  begin := fun c => ⟨answer_only r c, answer_tells r has c⟩
  advance := by
    intro w c q next hw hproceeds
    obtain ⟨⟨hq, hnext⟩, htells⟩ := hproceeds
    have hanswers : q.Answers has (q.perform ops w).1 := hw.ranged ▸ answers_perform ops q w
    exact ⟨⟨hw.sound.perform hops q, (World.ranged_perform ops hw.sound.pools hq).trans hw.ranged⟩,
      hnext _ (hw.sound.named_perform hops q), htells _ hanswers⟩
  finish := fun _ _ hproceeds => hproceeds.tells

/-! ## What the settings lack -/

theorem ranged_start {s : σ} (hstart : (r.start.runAlone ops (World.start s)).1 = .ok ()) :
    (r.start.runAlone ops (World.start s)).2.ranged = fun which => (Families.ofRanges (r.ranges which)).wants := by
  funext which f
  have hnetworks := networks_start hstart which
  unfold World.networks at hnetworks
  unfold World.ranged
  rw [Pool.ranged_eq_networks, hnetworks, List.any_map]
  cases f <;> rfl

theorem lacking_eq_some_iff (hfamilies : r.network.families = .ofRanges r.network.clusterRanges) :
    r.lacking (fun which => (Families.ofRanges (r.ranges which)).wants) n = some f ↔
      f = .v4 ∧ (r.hasOverlay = true ∧ ∀ range ∈ r.overlay.ranges, range.family ≠ .v4) ∧
        n.isUnmanaged = true ∧ n.isOverlayMember = true := by
  unfold lacking
  cases hd : r.demand? n with
  | none =>
    simp only [Option.bind_none, reduceCtorEq, false_iff]
    rintro ⟨-, ⟨hoverlay, -⟩, hunmanaged, hmember⟩
    have hserves : r.servesInOverlay n = true := by
      unfold servesInOverlay
      rw [hoverlay, hmember]
      rfl
    cases (demand?_overlay hunmanaged hserves).symm.trans hd
  | some d =>
    rw [Option.bind_some]
    rcases demand?_cases hd with ⟨hmanaged, hper, rfl⟩ | ⟨hunmanaged, hserves, rfl⟩
    · have hranges : r.ranges .cluster = r.network.clusterRanges := if_pos hper
      dsimp only
      rw [hranges, ← hfamilies, Families.lacking_self, hmanaged]
      simp
    · obtain ⟨hoverlay, hmember⟩ : r.hasOverlay = true ∧ n.isOverlayMember = true := by
        simpa [servesInOverlay] using hserves
      have hranges : r.ranges .overlay = r.overlay.ranges := if_pos hoverlay
      dsimp only
      rw [hranges, Families.lacking_onlyV4, hoverlay, hunmanaged, hmember]
      simp [Families.wants, Families.ofRanges]

section Settings

variable {settings : ControllerSettings} (hnetwork : settings.network.network = .ok r.network)
  (hoverlay : settings.overlay = .ok r.overlay)
include hnetwork hoverlay

theorem misfit_iff : (r.hasOverlay = true ∧ ∀ range ∈ r.overlay.ranges, range.family ≠ .v4) ↔ settings.Misfit := by
  have hsecondary := (NetworkSettings.of_network hnetwork).1
  have hranges := ControllerSettings.of_overlay hoverlay
  unfold hasOverlay ControllerSettings.Misfit
  rw [hsecondary, hranges, ← and_assoc]
  simp

/-- **Which accepted settings run into a family without a range.** A run for a node is refused a family exactly if the
settings are a misfit and the node is a member of the overlay, and the family is IPv4 then. So no run ever is exactly if
the settings fit. -/
theorem refused_iff_misfit (hops : ops.Faithful records) {s : σ} (hkeyed : (records s).Keyed)
    (hstart : (r.start.runAlone ops (World.start s)).1 = .ok ()) :
    (∀ y, Relation.ReflTransGen (Service.Step r.answer ops records)
          ⟨(r.start.runAlone ops (World.start s)).2, [], []⟩ y →
        ∀ n result, (.addOrUpdate n, result) ∈ y.ended → ∀ f, result = .error (.pool (.noRange f)) ↔
          f = .v4 ∧ settings.Misfit ∧ n.isUnmanaged = true ∧ n.isOverlayMember = true) ∧
      ((∀ y, Relation.ReflTransGen (Service.Step r.answer ops records)
            ⟨(r.start.runAlone ops (World.start s)).2, [], []⟩ y →
          ∀ n f, (.addOrUpdate n, .error (.pool (.noRange f))) ∉ y.ended) ↔ ¬ settings.Misfit) := by
  have hfamilies := (NetworkSettings.of_network hnetwork).2
  have hbegin : World.Ranged records (fun which => (Families.ofRanges (r.ranges which)).wants)
      (r.start.runAlone ops (World.start s)).2 := ⟨sound_start hkeyed, ranged_start hstart⟩
  have hresults : ∀ y, Relation.ReflTransGen (Service.Step r.answer ops records)
      ⟨(r.start.runAlone ops (World.start s)).2, [], []⟩ y →
        ∀ n result, (.addOrUpdate n, result) ∈ y.ended → ∀ f, result = .error (.pool (.noRange f)) ↔
          f = .v4 ∧ settings.Misfit ∧ n.isUnmanaged = true ∧ n.isOverlayMember = true := by
    intro y hrun n result hmem f
    have hend := (upheld_tells hops r _).run hbegin hrun
    rw [hend.ended _ result hmem n rfl f, lacking_eq_some_iff hfamilies,
      misfit_iff hnetwork hoverlay]
  refine ⟨hresults, fun hnever hmisfit => ?_, fun hfits y hrun n f hmem => ?_⟩
  · have hrun := Service.answers_alone r.answer ops records (.addOrUpdate overlayNode)
      (r.start.runAlone ops (World.start s)).2 []
    have hrefused := (hresults _ hrun overlayNode _ List.mem_cons_self .v4).2 ⟨rfl, hmisfit, overlayNode_labels⟩
    refine hnever _ hrun overlayNode .v4 ?_
    rw [← hrefused]
    exact List.mem_cons_self
  · exact hfits ((hresults y hrun n _ hmem f).1 rfl).2.1

end Settings

/-! ## Two overlays -/

def nodeRange : SubnetRange := ⟨⟨.v4, 0x0A400000, 12, by decide, by decide⟩, 15, by decide⟩

def olderRange : SubnetRange := ⟨⟨.v4, 0x0A500000, 12, by decide, by decide⟩, 15, by decide⟩

def newerRange : SubnetRange := ⟨⟨.v6, 0xfd31 <<< 112, 49, by decide, by decide⟩, 66, by decide⟩

def overlaidBy (ranges : List SubnetRange) : ControllerSettings :=
  ⟨.v4 0 9090, ⟨Network.defaultName, Network.defaultId, false, .default, [nodeRange]⟩, true, ranges, 10⟩

def overlaying (ranges : List SubnetRange) : Reconciler := ⟨.ofRanges [nodeRange], ⟨true, ranges⟩, .standard⟩

theorem bothFamilies_fit :
    (overlaidBy [newerRange, olderRange]).network.network = .ok (overlaying [newerRange, olderRange]).network ∧
      (overlaidBy [newerRange, olderRange]).overlay = .ok (overlaying [newerRange, olderRange]).overlay ∧
      ((overlaying [newerRange, olderRange]).start.runAlone ScriptedStore.refuserOps (World.start mixedStore)).1 =
        .ok () ∧
      ∀ y, Relation.ReflTransGen
          (Service.Step (overlaying [newerRange, olderRange]).answer ScriptedStore.refuserOps fun s => s.1.records)
          ⟨((overlaying [newerRange, olderRange]).start.runAlone ScriptedStore.refuserOps (World.start mixedStore)).2,
            [], []⟩ y →
        ∀ n f, (.addOrUpdate n, .error (.pool (.noRange f))) ∉ y.ended := by
  have hnetwork : (overlaidBy [newerRange, olderRange]).network.network =
      .ok (overlaying [newerRange, olderRange]).network := by decide +kernel
  have hoverlay : (overlaidBy [newerRange, olderRange]).overlay =
      .ok (overlaying [newerRange, olderRange]).overlay := by decide +kernel
  have hstart : ((overlaying [newerRange, olderRange]).start.runAlone ScriptedStore.refuserOps
      (World.start mixedStore)).1 = .ok () := by decide +kernel
  have hfits : ¬ (overlaidBy [newerRange, olderRange]).Misfit := by decide +kernel
  exact ⟨hnetwork, hoverlay, hstart,
    (refused_iff_misfit hnetwork hoverlay ScriptedStore.faithful mixedStore_keyed hstart).2.2 hfits⟩

/-- With an overlay of IPv6 alone the settings are accepted and the start succeeds, and the run for a member of the
overlay is refused IPv4. -/
theorem newerAlone_refused :
    (overlaidBy [newerRange]).network.network = .ok (overlaying [newerRange]).network ∧
      (overlaidBy [newerRange]).overlay = .ok (overlaying [newerRange]).overlay ∧
      ((overlaying [newerRange]).start.runAlone ScriptedStore.refuserOps (World.start mixedStore)).1 = .ok () ∧
      ∃ y, Relation.ReflTransGen
          (Service.Step (overlaying [newerRange]).answer ScriptedStore.refuserOps fun s => s.1.records)
          ⟨((overlaying [newerRange]).start.runAlone ScriptedStore.refuserOps (World.start mixedStore)).2, [], []⟩ y ∧
        (.addOrUpdate overlayNode, .error (.pool (.noRange .v4))) ∈ y.ended := by
  have hresult : (((overlaying [newerRange]).answer (.addOrUpdate overlayNode)).runAlone ScriptedStore.refuserOps
      ((overlaying [newerRange]).start.runAlone ScriptedStore.refuserOps (World.start mixedStore)).2).1 =
        .error (.pool (.noRange .v4)) := by decide +kernel
  refine ⟨by decide +kernel, by decide +kernel, by decide +kernel, _,
    Service.answers_alone (overlaying [newerRange]).answer ScriptedStore.refuserOps (fun s => s.1.records)
      (.addOrUpdate overlayNode) _ [], ?_⟩
  rw [hresult]
  exact List.mem_cons_self

end Reconciler

end HostSubnets
