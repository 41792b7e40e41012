import HostSubnets.Reconciler.Basic

/-!
# Programs side by side

Several programs work on one world. Each runs until it pauses, and goes on when its pause is over;
of those that may go on, the one that waits longest comes first, then the one that was named first.

* `Program.runToPause` : a program up to its end or its next pause;
* `Waiting` : a program that goes on at a time;
* `Program.runTogether` : programs run until all have ended;
* `Reconciler.addOrUpdateAll` : several nodes brought to what their labels ask for.
-/

namespace HostSubnets.Reconciler

variable {σ α : Type}

/-- A program up to its result, or to its next pause with the time at which that is over. -/
def Program.runToPause (ops : StoreOps σ) : Program α → World σ → (α ⊕ Nat × Program α) × World σ
  | .done value, w => (.inl value, w)
  | .ask (.pause delay jitter) next, w =>
    (.inr (w.clock + (delay.stretch jitter).ticks, next ()), w)
  | .ask request next, w =>
    let (reply, w) := request.perform ops w
    Program.runToPause ops (next reply) w

structure Waiting (α : Type) where
  wake : Nat
  /-- The place of the program among all. -/
  number : Nat
  program : Program α

namespace Waiting

def isBefore (a b : Waiting α) : Bool :=
  decide (a.wake < b.wake) || (decide (a.wake = b.wake) && decide (a.number < b.number))

def join (a : Waiting α) : List (Waiting α) → List (Waiting α)
  | [] => [a]
  | b :: rest => if a.isBefore b then a :: b :: rest else b :: join a rest

def run (ops : StoreOps σ) : (turns : Nat) → List (Waiting α) → SortedMap Nat α → World σ →
    SortedMap Nat α × World σ
  | 0, _, results, w => (results, w)
  | _, [], results, w => (results, w)
  | turns + 1, first :: rest, results, w =>
    match first.program.runToPause ops { w with clock := max w.clock first.wake } with
    | (.inl value, w) => run ops turns rest (results.insert first.number value) w
    | (.inr (wake, program), w) =>
      run ops turns (join { first with wake, program } rest) results w

end Waiting

/-- Programs that pause at most so many times each, run until all have ended. -/
def Program.runTogether (ops : StoreOps σ) (pauses : Nat) (programs : List (Program α))
    (w : World σ) : List α × World σ :=
  let waiting := programs.zipIdx.map fun (program, number) => ⟨w.clock, number, program⟩
  let (results, w) := Waiting.run ops (programs.length * (pauses + 1)) waiting .empty w
  (results.values, w)

/-- Several nodes brought to what their labels ask for, at the same time. Each is paused only
between the attempts of one write. -/
def addOrUpdateAll (r : Reconciler) (ops : StoreOps σ) (nodes : List Node) (w : World σ) :
    List (Except ControlError Unit) × World σ :=
  Program.runTogether ops r.backoff.steps (nodes.map r.addOrUpdate) w

end HostSubnets.Reconciler
