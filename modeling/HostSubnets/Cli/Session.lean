import HostSubnets.Cli.Reader
import HostSubnets.Controller.Basic
import HostSubnets.Metrics.Page
import HostSubnets.Text.Inert
import HostSubnets.Text.Quoted

/-!
# Runs of the program

* `NetworkSettings.cleanup`, `ControllerSettings.controller` : what the commands work with;
* `Session` : the circumstances of a run;
* `LogEntry`, `LogEntry.text?`, `LogEntry.lines` : what is told to the user;
* `Command.run` : the run of a command, with its exit code and what was served meanwhile.
-/

namespace HostSubnets

/-- Removes a network from the nodes of a server. The network need not be one that can be served. -/
def NetworkSettings.cleanup (s : NetworkSettings) (server : Api.Server) :
    Except CommandError Unit × Api.Server :=
  match s.context with
  | .error e => (.error e, server)
  | .ok network =>
    let r : Reconciler := ⟨network, .none, .standard⟩
    let (result, world) := (r.cleanup network.name).runAlone Api.Server.ops (.start server)
    (result.mapError .control, world.store)

def ControllerSettings.controller (s : ControllerSettings) (server : Api.Server) :
    Except CommandError Controller :=
  match s.network.network with
  | .error e => .error e
  | .ok network =>
    match s.overlay with
    | .error e => .error e
    | .ok overlay => .ok (.start ⟨network, overlay, .standard⟩ s.concurrency server)

def UsageError.exitCode : UsageError → Nat
  | .helpRequested => 0
  | .versionRequested => 0
  | _ => 2

inductive StopSignal where
  | interrupt
  | terminate
deriving DecidableEq, Repr

/-- The circumstances of a run. -/
structure Session where
  occupied : Bool
  signal : StopSignal
  /-- So many nodes are written before the signal comes. -/
  writes : Nat
  /-- The time in milliseconds at which it comes at the latest. -/
  limit : Nat

inductive LogEntry where
  | failed (task : String) (e : CommandError)
  | interrupted
  | exiting
  | aborted (e : CommandError)
deriving DecidableEq, Repr

/-- The text of an entry, where its wording is settled. -/
def LogEntry.text? : LogEntry → Option String
  | .failed task e => e.message?.map fun message =>
    String.ofList (Text.inert (task ++ " failed with error: " ++ message).toList)
  | .interrupted => some "captured ctrl_c signal"
  | .exiting => some "Exiting..."
  | .aborted (.invalidConfig reason) => some ("Error: InvalidConfig(" ++ Text.quote reason ++ ")")
  | .aborted _ => none

def LogEntry.lines (log : List LogEntry) : List String :=
  (log.filterMap (·.text?)).flatMap fun text => (Text.lines text.toList).map String.ofList

structure Outcome where
  exitCode : Nat
  log : List LogEntry
  /-- The metrics before the signal, if the controller was ready. -/
  served : Option Metrics
  server : Api.Server

namespace Session

def signalLog : StopSignal → List LogEntry
  | .interrupt => [.interrupted]
  | .terminate => []

/-- The outcome of a controller command that failed by itself. -/
def failure (task : String) (e : CommandError) (server : Api.Server) : Outcome :=
  ⟨0, [.failed task e, .exiting], none, server⟩

def runController (s : Session) (settings : ControllerSettings) (server : Api.Server) : Outcome :=
  if s.occupied then failure "metrics" .addressInUse server
  else
    match settings.controller server with
    | .error e => failure "controller" e server
    | .ok c =>
      let c := c.serveUntil s.writes s.limit
      match c.phase with
      | .ended (.error e) => failure "controller" (.control e) c.world.store
      | _ =>
        let served := if c.isReady then some c.metrics else none
        ⟨0, signalLog s.signal ++ [.exiting], served, c.finish.world.store⟩

end Session

def Command.run (session : Session) (server : Api.Server) : Command → Outcome
  | .controller settings => session.runController settings server
  | .cleanup settings =>
    match settings.cleanup server with
    | (.ok _, server) => ⟨0, [], none, server⟩
    | (.error e, server) => ⟨1, [.aborted e], none, server⟩

end HostSubnets
