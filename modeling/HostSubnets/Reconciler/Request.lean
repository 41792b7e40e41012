import HostSubnets.Metrics
import HostSubnets.Pool.Request
import HostSubnets.Retry.Backoff
import HostSubnets.Store.Basic

/-!
# What a reconciler asks for

Operations on one of the two pools, calls to the store of node records, pauses, and figures to be
recorded. Each is carried out in one piece.

* `Reconciler.Request`, `Reconciler.Request.Reply` : the requests and what they answer;
* `Reconciler.Program` : programs of them, `Reconciler.onPool` a program on one pool as such;
* `Reconciler.World` : pools, figures, a clock and a store;
* `Reconciler.Request.perform` : the effect of a request on them; a pause is stretched by
  half of what it may be.
-/

namespace HostSubnets.Reconciler

inductive PoolName where
  | cluster
  | overlay
deriving DecidableEq, Repr

inductive Request where
  | pool (which : PoolName) (request : Pool.Request)
  | get (name : String)
  | list (selector : String)
  | write (node : Node)
  /-- Wait for a length of time, stretched by a part of it up to `jitter`. -/
  | pause (delay : Duration) (jitter : Double)
  | recordCapacity (figures : PerFamily Nat)
  | recordAllocated (figures : PerFamily Nat)

abbrev Request.Reply : Request → Type
  | .pool _ request => request.Reply
  | .get _ => Except StoreError Node
  | .list _ => Except StoreError (List Node)
  | .write _ => Except StoreError Node
  | .pause .. => Unit
  | .recordCapacity _ => Unit
  | .recordAllocated _ => Unit

abbrev Program (α : Type) := Task Request Request.Reply α

def ask (request : Request) : Program request.Reply := Task.perform request

def onPool {α : Type} (which : PoolName) (program : Pool.Program α) : Program α :=
  program.substitute fun request => ask (.pool which request)

def askPool (which : PoolName) (request : Pool.Request) : Program request.Reply :=
  ask (.pool which request)

/-- What a program works on. -/
structure World (σ : Type) where
  cluster : Pool
  overlay : Pool
  gauges : Gauges
  clock : Nat
  store : σ

namespace World

variable {σ : Type}

def start (store : σ) : World σ := ⟨.empty, .empty, .unset, 0, store⟩

def pool (w : World σ) : PoolName → Pool
  | .cluster => w.cluster
  | .overlay => w.overlay

def setPool (which : PoolName) (p : Pool) (w : World σ) : World σ :=
  match which with
  | .cluster => { w with cluster := p }
  | .overlay => { w with overlay := p }

end World

/-- The reply to a request and the world after it. -/
def Request.perform {σ : Type} (ops : StoreOps σ) :
    (request : Request) → World σ → request.Reply × World σ
  | .pool which request, w =>
    let (reply, p) := request.perform (w.pool which)
    (reply, w.setPool which p)
  | .get name, w =>
    let (reply, store) := ops.get name w.store
    (reply, { w with store })
  | .list selector, w =>
    let (reply, store) := ops.list selector w.store
    (reply, { w with store })
  | .write node, w =>
    let (reply, store) := ops.write node w.store
    (reply, { w with store })
  | .pause delay jitter, w => ((), { w with clock := w.clock + (delay.stretch jitter).ticks })
  | .recordCapacity figures, w => ((), { w with gauges := w.gauges.recordCapacity figures })
  | .recordAllocated figures, w => ((), { w with gauges := w.gauges.recordAllocated figures })

def Program.runAlone {σ α : Type} (ops : StoreOps σ) (program : Program α) (w : World σ) :
    α × World σ :=
  Task.run (Request.perform ops) program w

end HostSubnets.Reconciler
