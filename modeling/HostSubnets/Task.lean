/-!
# Programs made of indivisible requests

A program that runs beside others is a tree of requests: it asks for something that is carried out
in one piece and goes on with the reply. Nothing is assumed of what happens between two requests,
so the same tree runs alone (`Task.run`) or one request at a time among others.

* `Task` : a value, or a request and what to do with its reply;
* `Task.perform` : one request;
* `Task.run` : the requests one after the other on a state, by a handler;
* `Task.substitute` : every request of one kind replaced by a program of another.
-/

namespace HostSubnets

/-- A program that ends with an `α` after finitely many requests. -/
inductive Task (Request : Type) (Reply : Request → Type) (α : Type) where
  | done (value : α)
  | ask (request : Request) (next : Reply request → Task Request Reply α)

namespace Task

variable {Request : Type} {Reply : Request → Type} {α β σ : Type}

def perform (request : Request) : Task Request Reply (Reply request) := .ask request .done

def bind : Task Request Reply α → (α → Task Request Reply β) → Task Request Reply β
  | .done value, f => f value
  | .ask request next, f => .ask request fun reply => (next reply).bind f

instance : Monad (Task Request Reply) where
  pure := .done
  bind := bind

/-- The requests carried out one after the other by a handler. -/
def run (handle : (request : Request) → σ → Reply request × σ) :
    Task Request Reply α → σ → α × σ
  | .done value, s => (value, s)
  | .ask request next, s =>
    let (reply, s) := handle request s
    (next reply).run handle s

/-- Every request replaced by a program for its reply. -/
def substitute {Request' : Type} {Reply' : Request' → Type}
    (f : (request : Request) → Task Request' Reply' (Reply request)) :
    Task Request Reply α → Task Request' Reply' α
  | .done value => .done value
  | .ask request next => (f request).bind fun reply => (next reply).substitute f

theorem run_done (handle : (request : Request) → σ → Reply request × σ) (value : α) (s : σ) :
    (Task.done value : Task Request Reply α).run handle s = (value, s) := rfl

theorem run_bind (handle : (request : Request) → σ → Reply request × σ)
    (task : Task Request Reply α) (f : α → Task Request Reply β) (s : σ) :
    (task.bind f).run handle s =
      let (value, s) := task.run handle s
      (f value).run handle s := by
  induction task generalizing s with
  | done value => rfl
  | ask request next ih => exact ih _ _

end Task

end HostSubnets
