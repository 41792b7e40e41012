import HostSubnets.Node.Annotations
import HostSubnets.Store.Error

/-!
# Errors of the controller and of its commands

* `ControlError` : why a node was not reconciled or a controller not started. Conflicts and missing
  nodes are recognised through the description of the failed update
  (`ControlError.isConflict_update`, `ControlError.isNotFound_update`);
* `ControlError.label` : the kind of error that failures are counted by;
* `CommandError` : why a command failed.
-/

namespace HostSubnets

inductive ControlError where
  | cache (error : CacheError)
  | pool (error : PoolError)
  | annotations (error : AnnotationError)
  | store (error : StoreError)
  | update (node : String) (cause : ControlError)
  | invalidNetwork (reason : String)
deriving DecidableEq, Repr

namespace ControlError

def isConflict : ControlError → Bool
  | .store e => e.isConflict
  | .update _ cause => cause.isConflict
  | _ => false

def isNotFound : ControlError → Bool
  | .store e => e.isNotFound
  | .update _ cause => cause.isNotFound
  | _ => false

theorem isConflict_update (node : String) (cause : ControlError) :
    (update node cause).isConflict = cause.isConflict := rfl

theorem isNotFound_update (node : String) (cause : ControlError) :
    (update node cause).isNotFound = cause.isNotFound := rfl

/-- The name under which failures of a kind are counted. -/
def label : ControlError → String
  | .cache _ => "kube_utils"
  | .pool _ => "pool"
  | .annotations _ => "annotation"
  | .store _ => "store"
  | .update .. => "update_node"
  | .invalidNetwork _ => "invalid_network"

/-- The message of an error, where its wording is settled. -/
def message? : ControlError → Option String
  | .cache e => e.message?.map ("kube utils error: " ++ ·)
  | .pool e => some ("subnet pool error: " ++ e.message)
  | .annotations e => e.message?.map ("annotation error: " ++ ·)
  | .store e => e.message?.map ("node store error: " ++ ·)
  | .update node cause => cause.message?.map ("failed to update node " ++ node ++ ": " ++ ·)
  | .invalidNetwork reason => some ("invalid network configuration: " ++ reason)

/-- The error of a network that cannot be served. -/
def ofProblem (p : NetworkProblem) : ControlError := .invalidNetwork p.message

end ControlError

inductive CommandError where
  | invalidConfig (reason : String)
  | control (error : ControlError)
  | api (error : ApiError)
  | addressInUse
deriving DecidableEq, Repr

def CommandError.message? : CommandError → Option String
  | .invalidConfig reason => some ("invalid configuration: " ++ reason)
  | .control e => e.message?.map ("controller error: " ++ ·)
  | .api _ => none
  | .addressInUse => some "io error: Address already in use (os error 98)"

end HostSubnets
