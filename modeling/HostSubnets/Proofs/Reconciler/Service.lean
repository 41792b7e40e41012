import HostSubnets.Proofs.Reconciler.Launch
import Mathlib.Logic.Relation

/-!
# Calls in progress at the same time

A service answers each call by a program. Calls begin at any time, those in progress make their requests in any order,
and meanwhile the records change (`Service.Step`). What each of these keeps of the world and of what is left of a call
is kept by all runs, and gives what the results of the calls are (`Service.Upheld.run`).
`answer` : the program for each call of a reconciler. All that it asks for is for names (`answer_only`).
-/

namespace HostSubnets.Reconciler

open HostSubnets.Task

variable {σ ι α : Type} {ops : StoreOps σ} {records : σ → Records} {program : ι → Program α}

/-- A world, what is left of the calls in progress, and the results of those that have ended. -/
structure Service (σ ι α : Type) where
  world : World σ
  running : List (ι × Program α)
  ended : List (ι × α)

namespace Service

inductive Step (program : ι → Program α) (ops : StoreOps σ) (records : σ → Records) :
    Service σ ι α → Service σ ι α → Prop where
  /-- The records change in any way, and the store fails as it likes. -/
  | store {w : World σ} {running : List (ι × Program α)} {ended : List (ι × α)} {s : σ} (hkeyed : (records s).Keyed) :
      Step program ops records ⟨w, running, ended⟩ ⟨{ w with store := s }, running, ended⟩
  | begin {w : World σ} {running : List (ι × Program α)} {ended : List (ι × α)} (c : ι) :
      Step program ops records ⟨w, running, ended⟩ ⟨w, (c, program c) :: running, ended⟩
  | advance {w : World σ} {front back : List (ι × Program α)} {ended : List (ι × α)} {c : ι} {q : Request}
      {next : q.Reply → Program α} :
      Step program ops records ⟨w, front ++ (c, .ask q next) :: back, ended⟩
        ⟨(q.perform ops w).2, front ++ (c, next (q.perform ops w).1) :: back, ended⟩
  | finish {w : World σ} {front back : List (ι × Program α)} {ended : List (ι × α)} {c : ι} {result : α} :
      Step program ops records ⟨w, front ++ (c, .done result) :: back, ended⟩ ⟨w, front ++ back, (c, result) :: ended⟩

/-! ## What all calls keep -/

/-- What is to hold of the world, of what is left of a call, and of the result of one. -/
structure Satisfies (inv : World σ → Prop) (along : ι → Program α → Prop) (post : ι → α → Prop)
    (y : Service σ ι α) : Prop where
  world : inv y.world
  running : ∀ c rest, (c, rest) ∈ y.running → along c rest
  ended : ∀ c result, (c, result) ∈ y.ended → post c result

/-- It holds of a call when that begins, and nothing that happens puts an end to it. -/
structure Upheld (program : ι → Program α) (ops : StoreOps σ) (records : σ → Records) (inv : World σ → Prop)
    (along : ι → Program α → Prop) (post : ι → α → Prop) : Prop where
  store : ∀ w s, inv w → (records s).Keyed → inv { w with store := s }
  begin : ∀ c, along c (program c)
  advance : ∀ w c q next, inv w → along c (.ask q next) →
    inv (q.perform ops w).2 ∧ along c (next (q.perform ops w).1)
  finish : ∀ c result, along c (.done result) → post c result

section Upheld

variable {inv : World σ → Prop} {along : ι → Program α → Prop} {post : ι → α → Prop} {y y' : Service σ ι α}
  (hupheld : Upheld program ops records inv along post)
include hupheld

theorem Step.satisfies (hstep : Step program ops records y y') (h : y.Satisfies inv along post) :
    y'.Satisfies inv along post := by
  obtain ⟨hworld, hrunning, hended⟩ := h
  cases hstep with
  | store hkeyed => exact ⟨hupheld.store _ _ hworld hkeyed, hrunning, hended⟩
  | begin c =>
    refine ⟨hworld, fun c' rest hmem => ?_, hended⟩
    rcases List.mem_cons.1 hmem with hnew | hold
    · cases hnew
      exact hupheld.begin c
    · exact hrunning c' rest hold
  | @advance w front back ended c q next =>
    obtain ⟨hafter, hnext⟩ := hupheld.advance w c q next hworld (hrunning c _ (by simp))
    refine ⟨hafter, fun c' rest hmem => ?_, hended⟩
    have hplace : (c', rest) ∈ front ∨ (c', rest) = (c, next (q.perform ops w).1) ∨ (c', rest) ∈ back := by
      simpa using hmem
    rcases hplace with hfront | hthis | hback
    · exact hrunning c' rest (by simp [hfront])
    · cases hthis
      exact hnext
    · exact hrunning c' rest (by simp [hback])
  | @finish w front back ended c result =>
    have hdone := hupheld.finish c result (hrunning c _ (by simp))
    refine ⟨hworld, fun c' rest hmem => hrunning c' rest ?_, fun c' result' hmem => ?_⟩
    · rcases List.mem_append.1 hmem with hfront | hback
      · simp [hfront]
      · simp [hback]
    · rcases List.mem_cons.1 hmem with hnew | hold
      · cases hnew
        exact hdone
      · exact hended c' result' hold

/-- **Where there were no calls at first, it holds in the end**, of all results too. -/
theorem Upheld.run {w : World σ} (hw : inv w)
    (hrun : Relation.ReflTransGen (Step program ops records) ⟨w, [], []⟩ y) : y.Satisfies inv along post := by
  induction hrun with
  | refl => exact ⟨hw, fun _ _ h => (nomatch h), fun _ _ h => (nomatch h)⟩
  | tail _ hstep ih => exact hstep.satisfies hupheld ih

end Upheld

theorem answers_alone (program : ι → Program α) (ops : StoreOps σ) (records : σ → Records) (c : ι) (w : World σ)
    (ended : List (ι × α)) :
    Relation.ReflTransGen (Step program ops records) ⟨w, [], ended⟩
      ⟨((program c).runAlone ops w).2, [], (c, ((program c).runAlone ops w).1) :: ended⟩ := by
  have hadvance : ∀ (q : Request) (next : q.Reply → Program α) (w : World σ),
      Step program ops records ⟨w, [(c, .ask q next)], ended⟩
        ⟨(q.perform ops w).2, [(c, next (q.perform ops w).1)], ended⟩ :=
    fun q next w => @Step.advance σ ι α program ops records w [] [] ended c q next
  have hfinish : ∀ (w : World σ) (result : α),
      Step program ops records ⟨w, [(c, .done result)], ended⟩ ⟨w, [], (c, result) :: ended⟩ :=
    fun w result => @Step.finish σ ι α program ops records w [] [] ended c result
  have hsteps := steps_run (fun p w => (⟨w, [(c, p)], ended⟩ : Service σ ι α)) hadvance (program c) w
  exact .head (.begin c) (.tail hsteps (hfinish _ _))

end Service

/-! ## The calls of a reconciler -/

inductive Call where
  | sync (nodes : List Node)
  | addOrUpdate (n : Node)
  | delete (name : String)
  | cleanup (network : String)

def answer (r : Reconciler) : Call → Program (Except ControlError Unit)
  | .sync nodes => r.sync nodes >>= fun _ => pure (.ok ())
  | .addOrUpdate n => r.addOrUpdate n
  | .delete name => r.delete name >>= fun _ => pure (.ok ())
  | .cleanup network => r.cleanup network

theorem cleanupNodes_only (r : Reconciler) (network : String) (failure : Option ControlError) (nodes : List Node) :
    (r.cleanupNodes network failure nodes).Only Request.ForName Request.Named := by
  induction nodes generalizing failure with
  | nil => exact only_pure _
  | cons n rest ih =>
    have hupdate : (r.update n.key (.ok ∘ withdraw network)).Only Request.ForName Request.Named :=
      (update_sole r n.key .cluster _).mono fun _ hq => hq.on.isBy.forName
    unfold cleanupNodes
    refine only_bind hupdate fun result => ?_
    cases result with
    | error e => exact ih _
    | ok _ => exact only_ask ⟨n.key, rfl⟩ fun _ _ => ih _

theorem answer_only (r : Reconciler) (c : Call) : (r.answer c).Only Request.ForName Request.Named := by
  cases c with
  | sync nodes => exact only_bind (sync_only r nodes) fun _ => only_pure _
  | addOrUpdate n => exact (addOrUpdate_only r n).mono fun _ hq => hq.forName
  | delete name => exact only_bind ((delete_only r name).mono fun _ hq => hq.forName) fun _ => only_pure _
  | cleanup network =>
    refine only_ask ⟨"", trivial⟩ fun reply _ => ?_
    cases reply with
    | error e => exact only_pure _
    | ok nodes => exact cleanupNodes_only r network none _

end HostSubnets.Reconciler
