import HostSubnets.Json.Decode
import HostSubnets.Json.Reader
import HostSubnets.Network
import HostSubnets.Node.Basic
import HostSubnets.Text.Quoted

/-!
# What nodes declare

The host subnets and the network ids of a node are kept in its annotations as JSON objects with one
member per network, the subnet of the hybrid overlay as plain text.

* `AnnotationKey` : the annotations in use;
* `AnnotationError` : why an annotation does not tell what it should;
* `Node.subnets?`, `Node.networkId?`, `Node.overlaySubnet?` : what a node declares;
* `TextMap.setSubnets`, `TextMap.setNetworkId`, `TextMap.setOverlaySubnet` : annotations that
  declare something else. A value that cannot be decoded is replaced, and an annotation without
  members is removed.
-/

namespace HostSubnets

open HostSubnets.Text

inductive AnnotationKey where
  | subnets
  | networkIds
  /-- The subnet of the hybrid overlay. -/
  | overlaySubnet
deriving DecidableEq, Repr

def AnnotationKey.text : AnnotationKey → String
  | .subnets => "mesh-cni.dev/node-subnets"
  | .networkIds => "mesh-cni.dev/network-ids"
  | .overlaySubnet => "mesh-cni.dev/hybrid-overlay-node-subnet"

inductive AnnotationError where
  /-- The text is not JSON of the expected shape. -/
  | undecodable (key : AnnotationKey)
  | invalid (key : AnnotationKey) (value reason : String)
deriving DecidableEq, Repr

/-- The message of an error; the wording of decoding errors is left open. -/
def AnnotationError.message? : AnnotationError → Option String
  | .undecodable _ => none
  | .invalid key value reason =>
    some ("invalid value " ++ quote value ++ " in annotation " ++ key.text ++ ": " ++ reason)

/-! ## Members by network -/

def decodeMembers {α : Type} (value? : Json → Option α) (text : String) :
    Option (SortedMap String α) :=
  (Json.read? text.toList).bind (Json.members? value?)

namespace TextMap

/-- Annotations with the members of one of them changed. -/
def changeMembers {α : Type} (key : AnnotationKey) (value? : Json → Option α) (value : α → Json)
    (change : SortedMap String α → SortedMap String α) (annotations : TextMap) : TextMap :=
  let members := ((annotations.find? key.text).bind (decodeMembers value?)).getD .empty
  let changed := change members
  if changed.isEmpty then annotations.erase key.text
  else annotations.insert key.text (Json.ofMap value changed).toString

/-- Annotations that declare these host subnets for a network; without subnets nothing is declared
for it. -/
def setSubnets (network : String) (subnets : List Cidr) : TextMap → TextMap :=
  changeMembers .subnets Json.texts? Json.ofTexts fun members =>
    if subnets = [] then members.erase network
    else members.insert network (subnets.map Cidr.toString)

/-- Annotations that declare this id for a network; the reserved id stands for none. -/
def setNetworkId (network : String) (id : Int) : TextMap → TextMap :=
  changeMembers .networkIds Json.text? Json.string fun members =>
    if id = Network.reservedId then members.erase network
    else members.insert network (String.ofList (showInt id))

def setOverlaySubnet (subnet : Cidr) (annotations : TextMap) : TextMap :=
  annotations.insert AnnotationKey.overlaySubnet.text subnet.toString

end TextMap

/-! ## Declarations -/

def readSubnet (key : AnnotationKey) (text : String) : Except AnnotationError Cidr :=
  let trimmed := trim text.toList
  match Cidr.read trimmed with
  | some subnet => .ok subnet
  | none => .error (.invalid key text (Cidr.invalidAddress trimmed))

def readSubnets (key : AnnotationKey) : List String → Except AnnotationError (List Cidr)
  | [] => .ok []
  | text :: rest =>
    match readSubnet key text with
    | .error e => .error e
    | .ok subnet =>
      match readSubnets key rest with
      | .error e => .error e
      | .ok subnets => .ok (subnet :: subnets)

namespace Node

/-- The member of a network in one of a node's annotations. -/
def member? {α : Type} (key : AnnotationKey) (value? : Json → Option α) (network : String)
    (n : Node) : Except AnnotationError (Option α) :=
  match n.annotationAt? key.text with
  | none => .ok none
  | some text =>
    match decodeMembers value? text with
    | none => .error (.undecodable key)
    | some members => .ok (members.find? network)

def subnets? (network : String) (n : Node) : Except AnnotationError (Option (List Cidr)) :=
  match n.member? .subnets Json.texts? network with
  | .error e => .error e
  | .ok none => .ok none
  | .ok (some texts) =>
    match readSubnets .subnets texts with
    | .error e => .error e
    | .ok subnets => .ok (some subnets)

def networkId? (network : String) (n : Node) : Except AnnotationError (Option Int) :=
  match n.member? .networkIds Json.text? network with
  | .error e => .error e
  | .ok none => .ok none
  | .ok (some text) =>
    match readInt 32 text.toList with
    | .error e => .error (.invalid .networkIds text e.message)
    | .ok id => .ok (some id)

def overlaySubnet? (n : Node) : Except AnnotationError (Option Cidr) :=
  match n.annotationAt? AnnotationKey.overlaySubnet.text with
  | none => .ok none
  | some text =>
    match readSubnet .overlaySubnet text with
    | .error e => .error e
    | .ok subnet => .ok (some subnet)

end Node

end HostSubnets
