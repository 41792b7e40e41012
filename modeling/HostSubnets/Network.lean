import HostSubnets.Range

/-!
# Logical networks

* `Topology` : how a secondary network is laid out, and its text in both directions;
* `Network` : the network that subnets are allocated for;
* `Network.perNode` : whether its nodes have host subnets of their own;
* `Network.problem?` : what keeps a network from being served;
* `HybridOverlay` : address space for nodes that are not part of the network themselves.
-/

namespace HostSubnets

inductive Topology where
  | layer3
  | layer2
  | localnet
deriving DecidableEq, Repr

namespace Topology

def default : Topology := .layer3

def name : Topology → String
  | .layer3 => "layer3"
  | .layer2 => "layer2"
  | .localnet => "localnet"

end Topology

inductive NetworkProblem where
  | unknownTopology (text : String)
  | unnamed
  | reservedId (network : String)
  | noSubnets (network : String)
deriving DecidableEq, Repr

/-- The topology of a name; the case of ASCII letters is ignored. -/
def Topology.read (text : String) : Except NetworkProblem Topology :=
  let lower := String.ofList (text.toList.map Char.toLower)
  if lower = "layer3" then .ok .layer3
  else if lower = "layer2" then .ok .layer2
  else if lower = "localnet" then .ok .localnet
  else .error (.unknownTopology lower)

structure Network where
  name : String
  id : Int
  secondary : Bool
  topology : Topology
  families : Families
  clusterRanges : List SubnetRange
deriving DecidableEq

namespace Network

def defaultName : String := "default"

def defaultId : Int := 0

/-- The id that stands for no network. -/
def reservedId : Int := -1

def ofRanges (ranges : List SubnetRange) : Network where
  name := defaultName
  id := defaultId
  secondary := false
  topology := .default
  families := .ofRanges ranges
  clusterRanges := ranges

/-- A network beside the default one. -/
def beside (name : String) (id : Int) (topology : Topology) (ranges : List SubnetRange) :
    Network where
  name := name
  id := id
  secondary := true
  topology := topology
  families := .ofRanges ranges
  clusterRanges := ranges

/-- Whether every node has host subnets of its own. -/
def perNode (n : Network) : Bool := !n.secondary || n.topology == .layer3

/-- The first reason why a network cannot be served. -/
def problem? (n : Network) : Option NetworkProblem :=
  if n.name = "" then some .unnamed
  else if n.id = reservedId then some (.reservedId n.name)
  else if n.perNode && n.families.isEmpty then some (.noSubnets n.name)
  else none

end Network

def NetworkProblem.message : NetworkProblem → String
  | .unknownTopology text => "unknown topology " ++ text
  | .unnamed => "network name is empty"
  | .reservedId network =>
    "network " ++ network ++ " uses the reserved id " ++ toString Network.reservedId
  | .noSubnets network => "network " ++ network ++ " needs at least one cluster subnet"

/-- Address space of the hybrid overlay, which only the default network has. -/
structure HybridOverlay where
  enabled : Bool
  ranges : List SubnetRange
deriving DecidableEq

def HybridOverlay.none : HybridOverlay := ⟨false, []⟩

end HostSubnets
