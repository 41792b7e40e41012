import HostSubnets.Endpoint
import HostSubnets.Error

/-!
# Settings of the commands

* `NetworkSettings` : which network is meant, `NetworkSettings.context` the network itself, and
  `NetworkSettings.network` the network if it can be served;
* `ControllerSettings` : the same with the hybrid overlay and the address of the metrics;
* `Command` : what the program is to do.
-/

namespace HostSubnets

structure NetworkSettings where
  name : String
  id : Int
  secondary : Bool
  topology : Topology
  clusterRanges : List SubnetRange
deriving DecidableEq

namespace NetworkSettings

/-- The network, whether it can be served or not. Only secondary networks have other names than the
default one. -/
def context (s : NetworkSettings) : Except CommandError Network :=
  if s.secondary then .ok (.beside s.name s.id s.topology s.clusterRanges)
  else if s.name ≠ Network.defaultName then
    .error (.invalidConfig ("network " ++ s.name ++ " must be declared with --secondary"))
  else .ok { Network.ofRanges s.clusterRanges with id := s.id }

def network (s : NetworkSettings) : Except CommandError Network :=
  match s.context with
  | .error e => .error e
  | .ok n =>
    match n.problem? with
    | some problem => .error (.control (.ofProblem problem))
    | none => .ok n

end NetworkSettings

structure ControllerSettings where
  metricsAddress : Endpoint
  network : NetworkSettings
  enableOverlay : Bool
  overlayRanges : List SubnetRange
  /-- Nodes reconciled at the same time. -/
  concurrency : Nat
deriving DecidableEq

/-- The hybrid overlay; enabling it takes ranges. -/
def ControllerSettings.overlay (s : ControllerSettings) : Except CommandError HybridOverlay :=
  if s.enableOverlay && s.overlayRanges.isEmpty then
    .error (.invalidConfig "hybrid overlay is enabled without hybrid overlay subnets")
  else .ok ⟨s.enableOverlay, s.overlayRanges⟩

inductive Command where
  | controller (settings : ControllerSettings)
  | cleanup (settings : NetworkSettings)
deriving DecidableEq

end HostSubnets
