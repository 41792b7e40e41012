import HostSubnets.SortedMap

/-!
# Node records

What is known of a cluster node: its names, the version of its record, annotations and labels.

* `Node.key` : the name a node goes by;
* `Node.isUnmanaged`, `Node.isOverlayMember` : the labels that decide which pool serves a node;
* `Node.changeAnnotations` : a node with other annotations, empty ones if it had none.
-/

namespace HostSubnets

abbrev TextMap := SortedMap String String

structure Node where
  name : Option String
  /-- Start of the name that a node without one is to be given. -/
  generateName : Option String
  /-- Version of the record; it changes with every write. -/
  version : Option String
  annotations : Option TextMap
  labels : Option TextMap
  /-- Deletion of the node was requested and is not carried out yet. -/
  terminating : Bool
deriving DecidableEq

namespace Node

def named (name : String) : Node := ⟨some name, none, none, none, none, false⟩

/-- The name that a node goes by. -/
def key (n : Node) : String := n.name.getD (n.generateName.getD "")

def hasVersion (n : Node) : Bool := n.version.getD "" != ""

def annotationAt? (n : Node) (key : String) : Option String :=
  n.annotations.bind fun annotations => annotations.find? key

def labelAt? (n : Node) (key : String) : Option String :=
  n.labels.bind fun labels => labels.find? key

/-- Nodes that carry this label get no subnet of the cluster. -/
def unmanagedLabel : String := "mesh-cni.dev/no-host-subnet"

def systemLabel : String := "kubernetes.io/os"

/-- The operating system whose nodes may join the hybrid overlay. -/
def overlaySystem : String := "windows"

def isUnmanaged (n : Node) : Bool := (n.labelAt? unmanagedLabel).isSome

def isOverlayMember (n : Node) : Bool := n.labelAt? systemLabel == some overlaySystem

def changeAnnotations (change : TextMap → TextMap) (n : Node) : Node :=
  { n with annotations := some (change (n.annotations.getD .empty)) }

theorem key_changeAnnotations (change : TextMap → TextMap) (n : Node) :
    (n.changeAnnotations change).key = n.key := rfl

end Node

end HostSubnets
