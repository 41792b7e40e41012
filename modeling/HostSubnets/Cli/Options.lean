import HostSubnets.Cli.Settings

/-!
# Options of the commands

* `CliOption` : the options, with their names, the environment variables that stand in for them and
  whether they take a value;
* `UsageError` : why a command line makes no command;
* `Draft` : the values of options given so far, `Draft.give` one more.
-/

namespace HostSubnets

open HostSubnets.Text

inductive CliOption where
  | metricsAddress
  | networkName
  | networkId
  | secondary
  | topology
  | clusterSubnet
  | enableOverlay
  | overlaySubnet
  | concurrency
deriving DecidableEq, Repr

namespace CliOption

def name : CliOption → String
  | .metricsAddress => "metrics-address"
  | .networkName => "network-name"
  | .networkId => "network-id"
  | .secondary => "secondary"
  | .topology => "topology"
  | .clusterSubnet => "cluster-subnet"
  | .enableOverlay => "enable-hybrid-overlay"
  | .overlaySubnet => "hybrid-overlay-subnet"
  | .concurrency => "concurrency"

/-- The environment variable that is used if the option is not given. -/
def variableName : CliOption → Option String
  | .networkName => some "NETWORK_NAME"
  | .networkId => some "NETWORK_ID"
  | .secondary => some "SECONDARY_NETWORK"
  | .topology => some "NETWORK_TOPOLOGY"
  | .clusterSubnet => some "CLUSTER_SUBNETS"
  | .enableOverlay => some "ENABLE_HYBRID_OVERLAY"
  | .overlaySubnet => some "HYBRID_OVERLAY_SUBNETS"
  | _ => none

def isSwitch : CliOption → Bool
  | .secondary => true
  | .enableOverlay => true
  | _ => false

def isList : CliOption → Bool
  | .clusterSubnet => true
  | .overlaySubnet => true
  | _ => false

/-- Options of a network, in the order in which the environment is consulted. -/
def ofNetwork : List CliOption := [.networkName, .networkId, .secondary, .topology, .clusterSubnet]

def ofController : List CliOption :=
  .metricsAddress :: ofNetwork ++ [.enableOverlay, .overlaySubnet, .concurrency]

/-- The character of a value's placeholder. -/
def placeholderChar (c : Char) : Char := if c = '-' then '_' else c.toUpper

def usage (o : CliOption) : String :=
  let flag := "--" ++ o.name
  if o.isSwitch then flag else flag ++ " <" ++ o.name.map placeholderChar ++ ">"

end CliOption

inductive UsageError where
  | missingCommand
  | helpRequested
  | versionRequested
  | unknownCommand
  | unknownArgument (word : String)
  /-- An option is given twice. -/
  | repeated (option : CliOption)
  | valueForFlag (flag : String)
  /-- An option ends without its value, or a switch in the environment is neither true nor
  false. -/
  | invalidValue (option : CliOption)
  /-- A value is not of the option's kind; the reason where its wording is settled. -/
  | malformed (option : CliOption) (reason : Option String)
deriving DecidableEq, Repr

structure Draft where
  given : List CliOption
  metricsAddress : Option Endpoint
  networkName : Option String
  networkId : Option Int
  secondary : Bool
  topology : Option Topology
  clusterRanges : List SubnetRange
  enableOverlay : Bool
  overlayRanges : List SubnetRange
  concurrency : Option Nat

namespace Draft

def empty : Draft := ⟨[], none, none, none, false, none, [], false, [], none⟩

/-- The pieces between commas. -/
def splitList (s : List Char) : List (List Char) :=
  match s with
  | [] => [[]]
  | ',' :: rest => [] :: splitList rest
  | c :: rest =>
    match splitList rest with
    | [] => [[c]]
    | piece :: pieces => (c :: piece) :: pieces

def readRanges (o : CliOption) (value : String) : Except UsageError (List SubnetRange) :=
  (splitList value.toList).mapM fun piece =>
    (SubnetRange.read piece).mapError fun e => .malformed o (some e.message)

def readNumber (o : CliOption) (low high : Int) (value : String) : Except UsageError Int :=
  match readInt 64 value.toList with
  | .error _ => .error (.malformed o none)
  | .ok n => if low ≤ n ∧ n ≤ high then .ok n else .error (.malformed o none)

def readSwitch (o : CliOption) (value : String) : Except UsageError Bool :=
  if value = "true" then .ok true
  else if value = "false" then .ok false
  else .error (.invalidValue o)

def readEndpoint (o : CliOption) (value : String) : Except UsageError Endpoint :=
  match Endpoint.read value.toList with
  | some e => .ok e
  | none => .error (.malformed o none)

def readTopology (o : CliOption) (value : String) : Except UsageError Topology :=
  (Topology.read value).mapError fun p => .malformed o (ControlError.ofProblem p).message?

/-- The value of an option that was not given before, or one more part of a list. -/
def set (o : CliOption) (value : String) (d : Draft) : Except UsageError Draft :=
  match o with
  | .metricsAddress => (readEndpoint o value).map fun v => { d with metricsAddress := some v }
  | .networkName => .ok { d with networkName := some value }
  | .networkId =>
    (readNumber o (-(2 ^ 31)) (2 ^ 31 - 1) value).map fun v => { d with networkId := some v }
  | .secondary => (readSwitch o value).map fun v => { d with secondary := v }
  | .topology => (readTopology o value).map fun v => { d with topology := some v }
  | .clusterSubnet =>
    (readRanges o value).map fun v => { d with clusterRanges := d.clusterRanges ++ v }
  | .enableOverlay => (readSwitch o value).map fun v => { d with enableOverlay := v }
  | .overlaySubnet =>
    (readRanges o value).map fun v => { d with overlayRanges := d.overlayRanges ++ v }
  | .concurrency =>
    (readNumber o 0 (2 ^ 16 - 1) value).map fun v => { d with concurrency := some v.toNat }

def give (o : CliOption) (value : String) (d : Draft) : Except UsageError Draft :=
  if o ∈ d.given ∧ !o.isList then .error (.repeated o)
  else (d.set o value).map fun d => { d with given := o :: d.given }

/-- The draft with options that are not given taken from the environment. -/
def consult (environment : List (String × String)) :
    List CliOption → Draft → Except UsageError Draft
  | [], d => .ok d
  | o :: rest, d =>
    let value := if o ∈ d.given then none else o.variableName.bind fun v => environment.lookup v
    match value with
    | none => consult environment rest d
    | some value =>
      match d.give o value with
      | .error e => .error e
      | .ok d => consult environment rest d

def networkSettings (d : Draft) : NetworkSettings where
  name := d.networkName.getD Network.defaultName
  id := d.networkId.getD Network.defaultId
  secondary := d.secondary
  topology := d.topology.getD .default
  clusterRanges := d.clusterRanges

/-- Where metrics are served if nothing else is said: every address of the machine. -/
def defaultMetricsAddress : Endpoint := .v4 0 9090

def defaultConcurrency : Nat := 10

def controllerSettings (d : Draft) : ControllerSettings where
  metricsAddress := d.metricsAddress.getD defaultMetricsAddress
  network := d.networkSettings
  enableOverlay := d.enableOverlay
  overlayRanges := d.overlayRanges
  concurrency := d.concurrency.getD defaultConcurrency

end Draft

end HostSubnets
