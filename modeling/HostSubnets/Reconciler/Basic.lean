import HostSubnets.Pool.Reconcile
import HostSubnets.Reconciler.Request

/-!
# The node reconciler

Keeps the host subnets that nodes declare consistent with the pools of one network. A node with the
unmanaged label has no subnet of the cluster; on a default network with a hybrid overlay it may have
one of that. Subnets are reserved before a node record is written, and given back if the write
fails.

* `Reconciler` : the configuration;
* `Reconciler.start` : registers the configured ranges;
* `Reconciler.sync` : reserves what known nodes declare;
* `Reconciler.addOrUpdate` : brings one node to its subnets, from a copy of its record;
* `Reconciler.delete` : gives back what a node holds;
* `Reconciler.cleanup` : removes a network from all managed nodes.
-/

namespace HostSubnets

structure Reconciler where
  network : Network
  overlay : HybridOverlay
  backoff : Backoff

namespace Reconciler

def hasOverlay (r : Reconciler) : Bool := !r.network.secondary && r.overlay.enabled

/-- Whether a node without a subnet of the cluster gets one of the hybrid overlay. -/
def servesInOverlay (r : Reconciler) (n : Node) : Bool := r.hasOverlay && n.isOverlayMember

/-! ## Figures -/

/-- Records the capacity of the cluster pool; a secondary network has no figures. -/
def recordCapacity (r : Reconciler) : Program Unit :=
  if r.network.secondary then pure ()
  else do
    let figures ← askPool .cluster .count
    ask (.recordCapacity figures)

def recordAllocated (r : Reconciler) : Program Unit :=
  if r.network.secondary then pure ()
  else do
    let figures ← askPool .cluster .usage
    ask (.recordAllocated figures)

/-! ## Start -/

/-- Registers ranges up to the first that is refused. -/
def register (which : PoolName) : List SubnetRange → Program (Except ControlError Unit)
  | [] => pure (.ok ())
  | range :: rest => do
    match ← askPool which (.addRange range.network range.hostLength) with
    | .error e => pure (.error (.pool e))
    | .ok _ => register which rest

def ranges (r : Reconciler) : PoolName → List SubnetRange
  | .cluster => if r.network.perNode then r.network.clusterRanges else []
  | .overlay => if r.hasOverlay then r.overlay.ranges else []

/-- Registers the configured ranges. -/
def start (r : Reconciler) : Program (Except ControlError Unit) :=
  match r.network.problem? with
  | some problem => pure (.error (.ofProblem problem))
  | none => do
    match ← register .cluster (r.ranges .cluster) with
    | .error e => pure (.error e)
    | .ok _ =>
      match ← register .overlay (r.ranges .overlay) with
      | .error e => pure (.error e)
      | .ok _ => do
        r.recordCapacity
        pure (.ok ())

def seed (r : Reconciler) (n : Node) : Program Unit :=
  if n.isUnmanaged then
    if r.servesInOverlay n then
      match n.overlaySubnet? with
      | .ok (some subnet) => do
        let _ ← askPool .overlay (.mark n.key [subnet])
        pure ()
      | _ => pure ()
    else pure ()
  else
    match n.subnets? r.network.name with
    | .ok (some subnets) => do
      let _ ← askPool .cluster (.mark n.key subnets)
      pure ()
    | _ => pure ()

def seedAll (r : Reconciler) : List Node → Program Unit
  | [] => pure ()
  | n :: rest => do
    r.seed n
    r.seedAll rest

/-- Reserves what known nodes declare. Nothing is allocated and nothing written. -/
def sync (r : Reconciler) (nodes : List Node) : Program Unit :=
  if r.network.perNode then do
    r.seedAll nodes
    r.recordAllocated
  else pure ()

/-! ## Writing -/

/-- One attempt to change the annotations of the stored record, missing ones being empty. -/
def tryUpdate (name : String) (change : TextMap → Except AnnotationError TextMap) :
    Program (Except ControlError Unit) := do
  match ← ask (.get name) with
  | .error e => pure (.error (.store e))
  | .ok node =>
    match change (node.annotations.getD .empty) with
    | .error e => pure (.error (.annotations e))
    | .ok annotations =>
      match ← ask (.write { node with annotations := some annotations }) with
      | .error e => pure (.error (.store e))
      | .ok _ => pure (.ok ())

/-- Changes the annotations of the stored record, again after a conflict. -/
def update (r : Reconciler) (name : String) (change : TextMap → Except AnnotationError TextMap) :
    Program (Except ControlError Unit) := do
  match ← retry r.backoff ControlError.isConflict
      (fun delay => ask (.pause delay r.backoff.jitter)) (tryUpdate name change) with
  | .ok _ => pure (.ok ())
  | .error e => pure (.error (.update name e))

/-- Gives back everything a node holds if its record is gone. Deletions are handled once, so nobody
else would do it for a node that comes back from an old copy. -/
def releaseVanished (which : PoolName) (name : String) : Program Unit := do
  match ← ask (.get name) with
  | .ok _ => pure ()
  | .error e =>
    if e.isNotFound then do
      let _ ← askPool which (.releaseAll name)
      pure ()
    else pure ()

/-- Undoes what was reserved for a write that failed: the new subnets are given back, or everything
if the node is gone. -/
def undo (which : PoolName) (name : String) (allocated : List Cidr) (e : ControlError) :
    Program Unit := do
  if allocated ≠ [] then
    let _ ← askPool which (.release name allocated)
  if e.isNotFound then
    let _ ← askPool which (.releaseAll name)

/-! ## One node -/

/-- The host subnets that a node declares; an unreadable declaration counts as none. -/
def declaredSubnets (r : Reconciler) (n : Node) : List Cidr :=
  match n.subnets? r.network.name with
  | .ok (some subnets) => subnets
  | _ => []

def declaredId (r : Reconciler) (n : Node) : Option Int :=
  match n.networkId? r.network.name with
  | .ok id => id
  | .error _ => none

/-- Whether a list of subnets is not the declared one: it differs in length or has a new subnet. -/
def differs (subnets existing : List Cidr) : Bool :=
  subnets.length != existing.length || subnets.any fun subnet => !existing.contains subnet

/-- What a managed node is to hold, none where nodes have no subnets of their own. -/
def settle (r : Reconciler) (name : String) (existing : List Cidr) :
    Program (Except ControlError (Option Pool.Assignment)) :=
  if r.network.perNode then do
    match ← onPool .cluster (Pool.reconcile name existing r.network.families) with
    | .error e => pure (.error (.pool e))
    | .ok assignment => pure (.ok (some assignment))
  else pure (.ok none)

def declare (r : Reconciler) (subnets : Option (List Cidr)) (annotations : TextMap) : TextMap :=
  let annotations := match subnets with
    | some subnets => annotations.setSubnets r.network.name subnets
    | none => annotations
  annotations.setNetworkId r.network.name r.network.id

/-- Brings a managed node to one subnet of each family. -/
def syncManaged (r : Reconciler) (n : Node) : Program (Except ControlError Unit) := do
  let name := n.key
  let existing := r.declaredSubnets n
  let held ← askPool .cluster (.allocated name)
  match ← r.settle name existing with
  | .error e => pure (.error e)
  | .ok settled =>
    let subnets := settled.map (·.subnets)
    let allocated := (settled.map (·.allocated)).getD []
    if !subnets.any (differs · existing) && r.declaredId n == some r.network.id then do
      if held = [] ∧ subnets.any (· ≠ []) then releaseVanished .cluster name
      pure (.ok ())
    else
      match ← r.update name (.ok ∘ r.declare subnets) with
      | .ok _ => pure (.ok ())
      | .error e => do
        undo .cluster name allocated e
        pure (.error e)

def declaredOverlay (n : Node) : List Cidr :=
  match n.overlaySubnet? with
  | .ok (some subnet) => [subnet]
  | _ => []

/-- Brings a node to one subnet of the hybrid overlay. -/
def syncOverlay (r : Reconciler) (n : Node) : Program (Except ControlError Unit) := do
  let name := n.key
  let existing := declaredOverlay n
  let held ← askPool .overlay (.allocated name)
  match ← onPool .overlay (Pool.reconcile name existing .onlyV4) with
  | .error e => pure (.error (.pool e))
  | .ok assignment =>
    match assignment.subnets with
    | [] => pure (.ok ())
    | subnet :: _ =>
      if assignment.allocated = [] ∧ existing = [subnet] then do
        if held = [] then releaseVanished .overlay name
        pure (.ok ())
      else
        match ← r.update name (.ok ∘ TextMap.setOverlaySubnet subnet) with
        | .ok _ => pure (.ok ())
        | .error e => do
          undo .overlay name assignment.allocated e
          pure (.error e)

/-- Brings a node to what its labels ask for, from a copy of its record. -/
def addOrUpdate (r : Reconciler) (n : Node) : Program (Except ControlError Unit) := do
  let result ←
    if !n.isUnmanaged then r.syncManaged n
    else if r.servesInOverlay n then r.syncOverlay n
    else pure (.ok ())
  match result with
  | .error e => pure (.error e)
  | .ok _ => do
    r.recordCapacity
    pure (.ok ())

def delete (r : Reconciler) (name : String) : Program Unit := do
  if r.hasOverlay then
    let _ ← askPool .overlay (.releaseAll name)
  if r.network.perNode then
    let _ ← askPool .cluster (.releaseAll name)
    r.recordCapacity

/-! ## All nodes -/

def managedSelector : String := "!" ++ Node.unmanagedLabel

def withdraw (network : String) (annotations : TextMap) : TextMap :=
  (annotations.setSubnets network []).setNetworkId network Network.reservedId

/-- Removes a network from nodes, one after the other. A failure is reported at the end, the first
one of several. -/
def cleanupNodes (r : Reconciler) (network : String) (failure : Option ControlError) :
    List Node → Program (Except ControlError Unit)
  | [] => pure (match failure with | some e => .error e | none => .ok ())
  | n :: rest => do
    match ← r.update n.key (.ok ∘ withdraw network) with
    | .error e => r.cleanupNodes network (failure.or (some e)) rest
    | .ok _ => do
      let _ ← askPool .cluster (.releaseAll n.key)
      r.cleanupNodes network failure rest

/-- Removes a network from all managed nodes. -/
def cleanup (r : Reconciler) (network : String) : Program (Except ControlError Unit) := do
  match ← ask (.list managedSelector) with
  | .error e => pure (.error (.store e))
  | .ok nodes => r.cleanupNodes network none (nodes.filter fun n => !n.isUnmanaged)

end Reconciler

end HostSubnets
