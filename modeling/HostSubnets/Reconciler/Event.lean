import HostSubnets.Reconciler.Basic

/-!
# What the reconciler does on events

* `Reconciler.reconcile` : one run for a node that is due. A terminating node is only released;
* `Reconciler.delayAfter` : how long after a run the node is due again, if it is;
* `WatchEvent`, `Reconciler.observe` : the deletions that a watch reports are the only events that
  change anything.
-/

namespace HostSubnets

inductive WatchEvent where
  | listing
  | listed (n : Node)
  | listEnd
  | applied (n : Node)
  | deleted (n : Node)
deriving DecidableEq

namespace Reconciler

/-- A node that was reconciled is due again after this time. -/
def successDelay : Duration := .ofSeconds 300

/-- A node that could not be reconciled is due again after this time. -/
def failureDelay : Duration := .ofSeconds 5

def reconcile (r : Reconciler) (n : Node) : Program (Except ControlError (Option Duration)) :=
  if n.terminating then do
    r.delete n.key
    pure (.ok none)
  else do
    match ← r.addOrUpdate n with
    | .error e => pure (.error e)
    | .ok _ => pure (.ok (some successDelay))

def delayAfter : Except ControlError (Option Duration) → Option Duration
  | .ok delay => delay
  | .error _ => some failureDelay

/-- What the deletion watch does with an event. -/
def observe (r : Reconciler) : WatchEvent → Program Unit
  | .deleted n => r.delete n.key
  | _ => pure ()

end Reconciler

end HostSubnets
