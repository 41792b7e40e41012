import HostSubnets.Task
import Mathlib.Logic.Relation

/-!
# What holds throughout a program

`Task.Always` : whatever replies a step relation allows, every state on the way satisfies an invariant and the
last one a postcondition. It is composed along the program (`always_bind`) and carries over to a run by a handler
that the relation describes (`Always.run`). `Task.Only` : every request a program can make, after replies of a kind,
is of one kind; `Task.Yields` : every value that it can end with after such replies is. `Task.requests` : the requests
that it makes in a run; `Task.collect` : what they contribute to a list.
-/

namespace HostSubnets.Task

variable {Request : Type} {Reply : Request → Type} {α β σ τ : Type}

/-- Along every run that `step` allows the states satisfy `inv`, and result and last state satisfy `post`. -/
def Always (step : (q : Request) → σ → Reply q → σ → Prop) (inv : σ → Prop) (post : α → σ → Prop) :
    Task Request Reply α → σ → Prop
  | .done value, s => post value s
  | .ask q next, s => ∀ reply s', step q s reply s' → inv s' ∧ (next reply).Always step inv post s'

/-- Every request, after any replies that `ok` admits, satisfies `p`. -/
def Only (p : Request → Prop) (ok : (q : Request) → Reply q → Prop) : Task Request Reply α → Prop
  | .done _ => True
  | .ask q next => p q ∧ ∀ reply, ok q reply → (next reply).Only p ok

/-- Every value at the end, after any replies that `ok` admits, satisfies `post`. -/
def Yields (ok : (q : Request) → Reply q → Prop) (post : α → Prop) : Task Request Reply α → Prop
  | .done value => post value
  | .ask q next => ∀ reply, ok q reply → (next reply).Yields ok post

theorem bind_assoc {γ : Type} (task : Task Request Reply α) (f : α → Task Request Reply β)
    (g : β → Task Request Reply γ) : task >>= f >>= g = task >>= fun value => f value >>= g := by
  show (task.bind f).bind g = task.bind fun value => (f value).bind g
  induction task with
  | done value => rfl
  | ask q next ih => exact congrArg (ask q) (funext ih)

theorem run_seq (handle : (q : Request) → σ → Reply q × σ) (task : Task Request Reply α)
    (f : α → Task Request Reply β) (s : σ) :
    (task >>= f).run handle s = (f (task.run handle s).1).run handle (task.run handle s).2 :=
  run_bind handle task f s

/-- A system that may carry out a program request by request may carry it out with nothing in between. -/
theorem steps_run {S : Type} {R : S → S → Prop} {handle : (q : Request) → τ → Reply q × τ}
    (embed : Task Request Reply α → τ → S)
    (hstep : ∀ q next w, R (embed (.ask q next) w) (embed (next (handle q w).1) (handle q w).2))
    (task : Task Request Reply α) (w : τ) :
    Relation.ReflTransGen R (embed task w) (embed (.done (task.run handle w).1) (task.run handle w).2) := by
  induction task generalizing w with
  | done value => exact .refl
  | ask q next ih => exact .head (hstep q next w) (ih (handle q w).1 (handle q w).2)

section Always

variable {step : (q : Request) → σ → Reply q → σ → Prop} {inv : σ → Prop} {post : α → σ → Prop}

theorem always_perform {q : Request} {post : Reply q → σ → Prop} (s : σ) :
    (perform q : Task Request Reply (Reply q)).Always step inv post s ↔
      ∀ reply s', step q s reply s' → inv s' ∧ post reply s' := Iff.rfl

theorem always_bind {post : β → σ → Prop} (task : Task Request Reply α) (f : α → Task Request Reply β)
    (s : σ) :
    (task >>= f).Always step inv post s ↔
      task.Always step inv (fun value s' => (f value).Always step inv post s') s := by
  show (task.bind f).Always step inv post s ↔ _
  induction task generalizing s with
  | done value => rfl
  | ask q next ih =>
    unfold bind Always
    exact forall₂_congr fun reply s' => imp_congr_right fun _ => and_congr_right fun _ => ih reply s'

theorem Always.mono {inv' : σ → Prop} {post' : α → σ → Prop} {task : Task Request Reply α} {s : σ}
    (h : task.Always step inv post s) (hinv : ∀ s, inv s → inv' s)
    (hpost : ∀ value s, post value s → post' value s) : task.Always step inv' post' s := by
  induction task generalizing s with
  | done value => exact hpost value s h
  | ask q next ih =>
    intro reply s' hstep
    obtain ⟨hi, hnext⟩ := h reply s' hstep
    exact ⟨hinv s' hi, ih reply hnext⟩

theorem Always.imp {post' : α → σ → Prop} {task : Task Request Reply α} {s : σ}
    (h : task.Always step inv post s) (hpost : ∀ value s, post value s → post' value s) :
    task.Always step inv post' s := h.mono (fun _ hi => hi) hpost

theorem Always.and_inv {task : Task Request Reply α} {s : σ} (h : task.Always step inv post s) (hs : inv s) :
    task.Always step inv (fun value s' => post value s' ∧ inv s') s := by
  induction task generalizing s with
  | done value => exact ⟨h, hs⟩
  | ask q next ih =>
    intro reply s' hstep
    obtain ⟨hi, hnext⟩ := h reply s' hstep
    exact ⟨hi, ih reply hnext hi⟩

/-- A handler that the step relation describes, through a relation between states, runs as foreseen. -/
theorem Always.run {handle : (q : Request) → τ → Reply q × τ} {R : τ → σ → Prop}
    (hstep : ∀ q w s, R w s → ∃ s', step q s (handle q w).1 s' ∧ R (handle q w).2 s')
    {task : Task Request Reply α} {w : τ} {s : σ} (h : task.Always step inv post s) (hw : R w s) :
    ∃ s', R (task.run handle w).2 s' ∧ post (task.run handle w).1 s' := by
  induction task generalizing w s with
  | done value => exact ⟨s, hw, h⟩
  | ask q next ih =>
    obtain ⟨s', hs, hR⟩ := hstep q w s hw
    exact ih _ (h _ s' hs).2 hR

/-- A step before which something else may have happened. -/
def After (env : σ → σ → Prop) (step : (q : Request) → σ → Reply q → σ → Prop) (q : Request) (s : σ) (reply : Reply q)
    (s' : σ) : Prop :=
  ∃ t, env s t ∧ step q t reply s'

end Always

section Only

variable {p : Request → Prop} {ok : (q : Request) → Reply q → Prop}

theorem only_bind {task : Task Request Reply α} {f : α → Task Request Reply β} (ht : task.Only p ok)
    (hf : ∀ value, (f value).Only p ok) : (task >>= f).Only p ok := by
  show (task.bind f).Only p ok
  induction task with
  | done value => exact hf value
  | ask q next ih => exact ⟨ht.1, fun reply hreply => ih reply (ht.2 reply hreply)⟩

theorem Only.mono {p' : Request → Prop} {task : Task Request Reply α} (h : task.Only p ok)
    (hp : ∀ q, p q → p' q) : task.Only p' ok := by
  induction task with
  | done value => exact trivial
  | ask q next ih => exact ⟨hp q h.1, fun reply hreply => ih reply (h.2 reply hreply)⟩

theorem only_ask {q : Request} {f : Reply q → Task Request Reply α} (hq : p q)
    (hf : ∀ reply, ok q reply → (f reply).Only p ok) : (perform q >>= f).Only p ok := ⟨hq, hf⟩

theorem only_perform {q : Request} (h : p q) : (perform q : Task Request Reply (Reply q)).Only p ok :=
  ⟨h, fun _ _ => trivial⟩

theorem only_pure (value : α) : (pure value : Task Request Reply α).Only p ok := trivial

theorem Only.after {task : Task Request Reply α} (h : task.Only p fun _ _ => True) : task.Only p ok := by
  induction task with
  | done value => exact trivial
  | ask q next ih => exact ⟨h.1, fun reply _ => ih reply (h.2 reply trivial)⟩

theorem run_keeps {handle : (q : Request) → τ → Reply q × τ} {inv : τ → Prop}
    (hstep : ∀ q w, inv w → inv (handle q w).2) (task : Task Request Reply α) {w : τ} (hw : inv w) :
    inv (task.run handle w).2 := by
  induction task generalizing w with
  | done value => exact hw
  | ask q next ih => exact ih _ (hstep q w hw)

theorem Only.run {handle : (q : Request) → τ → Reply q × τ} {inv : τ → Prop}
    (hstep : ∀ q w, p q → inv w → inv (handle q w).2 ∧ ok q (handle q w).1) {task : Task Request Reply α} {w : τ}
    (h : task.Only p ok) (hw : inv w) : inv (task.run handle w).2 := by
  induction task generalizing w with
  | done value => exact hw
  | ask q next ih =>
    obtain ⟨hw', hok⟩ := hstep q w h.1 hw
    exact ih _ (h.2 _ hok) hw'

/-- Handlers that answer all requests of a program alike, through a relation between their states, run it alike. -/
theorem Only.run_agrees {handle : (q : Request) → σ → Reply q × σ} {handle' : (q : Request) → τ → Reply q × τ}
    {R : σ → τ → Prop}
    (hstep : ∀ q s w, p q → R s w → (handle q s).1 = (handle' q w).1 ∧ R (handle q s).2 (handle' q w).2)
    {task : Task Request Reply α} (h : task.Only p fun _ _ => True) {s : σ} {w : τ} (hR : R s w) :
    (task.run handle s).1 = (task.run handle' w).1 ∧ R (task.run handle s).2 (task.run handle' w).2 := by
  induction task generalizing s w with
  | done value => exact ⟨rfl, hR⟩
  | ask q next ih =>
    obtain ⟨hreply, hafter⟩ := hstep q s w h.1 hR
    have hrest := ih (handle q s).1 (h.2 _ trivial) hafter
    rw [hreply] at hrest
    show ((next (handle q s).1).run handle (handle q s).2).1 = _ ∧ R ((next (handle q s).1).run handle _).2 _
    rw [hreply]
    exact hrest

end Only

section Yields

variable {ok : (q : Request) → Reply q → Prop} {post : α → Prop}

theorem yields_bind {post : β → Prop} (task : Task Request Reply α) (f : α → Task Request Reply β) :
    (task >>= f).Yields ok post ↔ task.Yields ok fun value => (f value).Yields ok post := by
  show (task.bind f).Yields ok post ↔ _
  induction task with
  | done value => rfl
  | ask q next ih =>
    unfold bind Yields
    exact forall₂_congr fun reply _ => ih reply

theorem Yields.imp {post' : α → Prop} {task : Task Request Reply α} (h : task.Yields ok post)
    (hpost : ∀ value, post value → post' value) : task.Yields ok post' := by
  induction task with
  | done value => exact hpost value h
  | ask q next ih => exact fun reply hreply => ih reply (h reply hreply)

theorem yields_of_forall (task : Task Request Reply α) (h : ∀ value, post value) : task.Yields ok post := by
  induction task with
  | done value => exact h value
  | ask q next ih => exact fun reply _ => ih reply

theorem yields_bind_of_forall {post : β → Prop} (task : Task Request Reply α) {f : α → Task Request Reply β}
    (h : ∀ value, (f value).Yields ok post) : (task >>= f).Yields ok post :=
  (yields_bind task f).2 (yields_of_forall task h)

end Yields

/-! ## The requests of a run -/

section Requests

variable {γ : Type}

/-- What the requests of a run by a handler contribute, in their order. -/
def collect (handle : (q : Request) → τ → Reply q × τ) (entries : Request → τ → List γ) :
    Task Request Reply α → τ → List γ
  | .done _, _ => []
  | .ask q next, w => entries q w ++ (next (handle q w).1).collect handle entries (handle q w).2

theorem collect_bind (handle : (q : Request) → τ → Reply q × τ) (entries : Request → τ → List γ)
    (task : Task Request Reply α) (f : α → Task Request Reply β) (w : τ) : (task >>= f).collect handle entries w =
      task.collect handle entries w ++ (f (task.run handle w).1).collect handle entries (task.run handle w).2 := by
  show (task.bind f).collect handle entries w = _
  induction task generalizing w with
  | done value => rfl
  | ask q next ih => exact (congrArg (entries q w ++ ·) (ih _ _)).trans (List.append_assoc _ _ _).symm

theorem Only.collect_eq_nil {p : Request → Prop} {handle : (q : Request) → τ → Reply q × τ}
    {entries : Request → τ → List γ} (hentries : ∀ q w, p q → entries q w = []) {task : Task Request Reply α}
    (h : task.Only p fun _ _ => True) (w : τ) : task.collect handle entries w = [] := by
  induction task generalizing w with
  | done value => rfl
  | ask q next ih =>
    show entries q w ++ (next _).collect handle entries _ = []
    rw [hentries q w h.1, ih _ (h.2 _ trivial), List.nil_append]

def requests (handle : (q : Request) → τ → Reply q × τ) : Task Request Reply α → τ → List Request
  | .done _, _ => []
  | .ask q next, w => q :: (next (handle q w).1).requests handle (handle q w).2

theorem requests_eq_collect (handle : (q : Request) → τ → Reply q × τ) (task : Task Request Reply α) (w : τ) :
    task.requests handle w = task.collect handle (fun q _ => [q]) w := by
  induction task generalizing w with
  | done value => rfl
  | ask q next ih => exact congrArg (q :: ·) (ih _ _)

theorem requests_bind (handle : (q : Request) → τ → Reply q × τ) (task : Task Request Reply α)
    (f : α → Task Request Reply β) (w : τ) : (task >>= f).requests handle w =
      task.requests handle w ++ (f (task.run handle w).1).requests handle (task.run handle w).2 := by
  simp only [requests_eq_collect, collect_bind]

theorem Only.requests {p : Request → Prop} {handle : (q : Request) → τ → Reply q × τ} {task : Task Request Reply α}
    (h : task.Only p fun _ _ => True) (w : τ) : ∀ q ∈ task.requests handle w, p q := by
  induction task generalizing w with
  | done value =>
    intro q hq
    cases hq
  | ask q next ih =>
    intro q' hq'
    rcases List.mem_cons.1 hq' with rfl | hrest
    · exact h.1
    · exact ih _ (h.2 _ trivial) _ q' hrest

end Requests

end HostSubnets.Task
