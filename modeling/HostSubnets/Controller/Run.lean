import HostSubnets.Reconciler.Event
import HostSubnets.Reconciler.Together

/-!
# Runs that wait

A run for a node may pause between the attempts of one write. Other nodes may have their runs
meanwhile, and the records may change.

* `Run` : a run that goes on at a time;
* `Run.join` : a run among others, in the order in which they go on;
* `Run.isOf` : whether a node has a run.
-/

namespace HostSubnets

/-- What a run ends with: the time after which its node is due again, if it is, or an error. -/
abbrev Run.Result := Except ControlError (Option Duration)

structure Run where
  name : String
  wake : Nat
  program : Reconciler.Program Run.Result

namespace Run

/-- A run behind those that go on no later. -/
def join (run : Run) : List Run → List Run
  | [] => [run]
  | first :: rest => if run.wake < first.wake then run :: first :: rest else first :: run.join rest

def isOf (name : String) (runs : List Run) : Bool := runs.any (·.name = name)

end Run

end HostSubnets
