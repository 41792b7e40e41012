import HostSubnets.Api.Cache
import HostSubnets.Controller.Agenda
import HostSubnets.Controller.Run

/-!
# The controller

A controller registers the configured ranges, lists the nodes, reserves what they declare and then
reconciles every node when it is listed or changes, and again after a while. Deletions are reported
by a watch of their own, which is opened after the nodes were listed. A watch that fails is opened
again with a list. Nothing takes time but pauses, and no more nodes are reconciled at a time than
there are slots. A controller that is to stop begins nothing new, but what it began is finished.

* `Controller.start` : the controller before the first list;
* `Controller.next?`, `Controller.handle` : what happens next and when, and the controller after it;
* `Controller.runBefore` : everything that happens before a time;
* `Controller.intervene` : a change that others make on the server;
* `Controller.cancel`, `Controller.finish` : the end;
* `Controller.serveUntil` : a run until nodes were written.
-/

namespace HostSubnets

/-- A watch that changes are reported by. -/
inductive Watch where
  | closed
  /-- It is opened by a list at a time, or the next time after a refusal. -/
  | pending (next : Nat)
  | connected
deriving DecidableEq, Repr

inductive Phase where
  /-- The nodes are listed at a time, or the next time after a refusal. -/
  | listing (next : Nat) (cancelled : Bool)
  | serving
  | draining
  | ended (result : Except ControlError Unit)

structure Controller where
  reconciler : Reconciler
  /-- So many nodes are reconciled at a time; zero sets no bound. -/
  slots : Nat
  /-- Times are in milliseconds since the start. -/
  world : Reconciler.World Api.Server
  counts : Counts
  phase : Phase
  source : Watch
  watch : Watch
  cache : Cache
  agenda : Agenda
  /-- Nodes that changed while all slots were taken. -/
  backlog : List String
  /-- The runs that wait, in the order in which they go on. -/
  running : List Run

inductive Controller.Event where
  | list (cancelled : Bool)
  | expire
  | refresh
  | watch
  | wake
  | turn (name : String)

namespace Controller

/-- Milliseconds within which the nodes have to be listed. -/
def listLimit : Nat := 30000

def isReady (c : Controller) : Bool :=
  match c.phase with
  | .listing .. => false
  | .ended result => result.isOk
  | _ => true

def isRunning (c : Controller) : Bool :=
  match c.phase with
  | .ended _ => false
  | _ => true

def isFull (c : Controller) : Bool := c.slots != 0 && c.slots ≤ c.running.length

def metrics (c : Controller) : Metrics := ⟨c.world.gauges, c.counts⟩

/-! ## Programs -/

def perform {α : Type} (c : Controller) (program : Reconciler.Program α) : α × Controller :=
  let (result, world) := program.runAlone Api.Server.ops c.world
  (result, { c with world })

/-- A controller whose ranges are registered, if they can be. -/
def start (reconciler : Reconciler) (slots : Nat) (server : Api.Server) : Controller :=
  let c : Controller := ⟨reconciler, slots, .start server, .zero, .listing 0 false, .closed,
    .closed, .empty, .empty, [], []⟩
  match c.perform reconciler.start with
  | (.ok _, c) => c
  | (.error e, c) => { c with phase := .ended (.error e) }

/-! ## Changes -/

def plan (c : Controller) (name : String) : Controller :=
  { c with agenda := c.agenda.add c.world.clock name }

/-- A node is due now, or as soon as there is a slot. -/
def trigger (c : Controller) (name : String) : Controller :=
  if c.isFull then { c with backlog := c.backlog ++ [name] } else c.plan name

def reopened (c : Controller) : Watch := .pending (c.world.clock + Cache.listDelay)

/-- A change as it is seen by the cache. A record without a version breaks the watch, and a node
without a name ends the service. -/
def follow (c : Controller) (change : Api.Change) : Controller :=
  match c.phase, c.source with
  | .serving, .connected =>
    if !change.node.hasVersion then { c with source := c.reopened }
    else if change.node.name.isNone then { c with phase := .draining }
    else
      let c := { c with cache := c.cache.absorb change }
      match change with
      | .written n => c.trigger n.key
      | .removed _ => c
  | _, _ => c

/-- A change as it is seen by the deletion watch. -/
def release (c : Controller) (change : Api.Change) : Controller :=
  match c.watch with
  | .connected =>
    if !change.node.hasVersion then { c with watch := c.reopened }
    else
      match change with
      | .removed n => (c.perform (c.reconciler.observe (.deleted n))).2
      | .written _ => c
  | _ => c

/-- The end, if nothing is left to be finished. -/
def settle (c : Controller) : Controller :=
  match c.phase, c.running with
  | .draining, [] => { c with phase := .ended (.ok ()) }
  | _, _ => c

def observeAll (c : Controller) : Controller :=
  let (changes, server) := c.world.store.takeChanges
  let c := { c with world := { c.world with store := server } }
  (changes.foldl (fun c change => (c.follow change).release change) c).settle

/-! ## Events -/

def seed (cancelled : Bool) (cache : Cache) (c : Controller) : Controller :=
  let c := (c.perform (c.reconciler.sync cache.values)).2
  if cancelled then { c with cache, phase := .ended (.ok ()) }
  else
    cache.keys.foldl plan
      { c with cache, phase := .serving, source := .connected, watch := .pending c.world.clock }

def list (cancelled : Bool) (c : Controller) : Controller :=
  let (result, server) := Cache.list c.world.store
  let c := { c with world := { c.world with store := server } }
  match result with
  | some (.ok cache) => c.seed cancelled cache
  | some (.error e) => { c with phase := .ended (.error (.cache e)) }
  | none => { c with phase := .listing (c.world.clock + Cache.listDelay) cancelled }

def refresh (c : Controller) : Controller :=
  let (result, server) := Cache.list c.world.store
  let c := { c with world := { c.world with store := server } }
  match result with
  | some (.ok cache) => cache.keys.foldl trigger { c with cache, source := .connected }
  | some (.error _) => { c with phase := .draining }.settle
  | none => { c with source := c.reopened }

/-- Opens the deletion watch. Nodes that were deleted before are not reported. -/
def openWatch (c : Controller) : Controller :=
  let (result, server) := Api.Server.ops.list "" c.world.store
  { c with
    world := { c.world with store := server }
    watch := if result.isOk then .connected else c.reopened }

/-- A run ended. Nodes that waited for its slot are due, and its own node after a while. -/
def conclude (name : String) (result : Run.Result) (c : Controller) : Controller :=
  let counts := match result with
    | .ok _ => c.counts
    | .error e => c.counts.addFailure e
  let c := observeAll (c.backlog.foldl plan { c with counts, backlog := [] })
  match Reconciler.delayAfter result with
  | some delay => { c with agenda := c.agenda.add (c.world.clock + delay.ticks) name }
  | none => c

def proceed (name : String) (program : Reconciler.Program Run.Result) (c : Controller) :
    Controller :=
  match program.runToPause Api.Server.ops c.world with
  | (.inl result, world) => conclude name result { c with world }
  | (.inr (wake, program), world) =>
    observeAll { c with world, running := Run.join ⟨name, wake, program⟩ c.running }

def wake (c : Controller) : Controller :=
  match c.running with
  | [] => c
  | run :: rest => proceed run.name run.program { c with running := rest }

/-- A run for a node that is due. A node that is gone has none. -/
def turn (name : String) (c : Controller) : Controller :=
  let c := { c with agenda := c.agenda.drop name }
  match c.cache.find? name with
  | none => c
  | some n => proceed name (c.reconciler.reconcile n) { c with counts := c.counts.addRun }

def handle (c : Controller) : Event → Controller
  | .list cancelled => c.list cancelled
  | .expire => { c with phase := .ended (.error (.cache Cache.timedOut)) }
  | .refresh => c.refresh
  | .watch => c.openWatch
  | .wake => c.wake
  | .turn name => c.turn name

/-! ## What comes next -/

def nextList? (c : Controller) : Option (Nat × Event) :=
  match c.phase with
  | .listing next cancelled =>
    if next < listLimit then some (next, .list cancelled) else some (listLimit, .expire)
  | _ => none

def nextRefresh? (c : Controller) : Option (Nat × Event) :=
  match c.phase, c.source with
  | .serving, .pending next => some (next, .refresh)
  | _, _ => none

def nextWatch? (c : Controller) : Option (Nat × Event) :=
  match c.watch with
  | .pending next => some (next, .watch)
  | _ => none

def nextWake? (c : Controller) : Option (Nat × Event) :=
  c.running.head?.map fun run => (run.wake, .wake)

def nextTurn? (c : Controller) : Option (Nat × Event) :=
  match c.phase with
  | .serving =>
    if c.isFull then none
    else (c.agenda.first? fun name => !Run.isOf name c.running).map fun e => (e.1, .turn e.2)
  | _ => none

def earlier : Option (Nat × Event) → Option (Nat × Event) → Option (Nat × Event)
  | some a, some b => if b.1 < a.1 then some b else some a
  | a, b => a.or b

/-- The next event and its time. -/
def next? (c : Controller) : Option (Nat × Event) :=
  earlier (earlier c.nextList? c.nextRefresh?)
    (earlier c.nextWatch? (earlier c.nextWake? c.nextTurn?))

/-! ## Runs of the controller -/

def waitUntil (time : Nat) (c : Controller) : Controller :=
  { c with world := { c.world with clock := max c.world.clock time } }

/-- At most so many events, as long as a condition holds for the time of the next one and the
controller before it. -/
def runWhile (go : Nat → Controller → Bool) : (events : Nat) → Controller → Controller
  | 0, c => c
  | events + 1, c =>
    match c.next? with
    | none => c
    | some (due, event) =>
      let time := max c.world.clock due
      if go time c then runWhile go events ((c.waitUntil time).handle event) else c

/-- More events than there are within a length of time: in one millisecond every node that is due or
was disturbed is reconciled, and once more if it was written, each time with as many attempts as
there may be. -/
def eventBound (length : Nat) (c : Controller) : Nat :=
  let s := c.world.store
  (length + 1) * 4 * (c.reconciler.backoff.steps + 2) *
    (c.agenda.size + c.backlog.length + c.running.length + s.records.size + s.getFaults.length +
      s.listFaults.length + s.writeFaults.length + 1)

def runBefore (time : Nat) (c : Controller) : Controller :=
  runWhile (fun due _ => due < time) (c.eventBound (time - c.world.clock)) c

/-- A change that others make on the server at a time. What is due at that time comes first, but
works on the changed server. -/
def intervene (time : Nat) (change : Api.Server → Api.Server) (c : Controller) : Controller :=
  let c := { c with world := { c.world with store := change c.world.store } }
  ((c.runBefore (time + 1)).waitUntil time).observeAll

def cancel (c : Controller) : Controller :=
  let c := { c with watch := .closed }
  match c.phase with
  | .listing next _ => { c with phase := .listing next true }
  | .serving => { c with phase := .draining }.settle
  | _ => c

/-- The controller stopped. It takes at most the time for the list and for the attempts of the runs
that wait. -/
def finish (c : Controller) : Controller :=
  let c := c.cancel
  runWhile (fun _ _ => true) (c.eventBound listLimit) c

def result? (c : Controller) : Option (Except ControlError Unit) :=
  match c.phase with
  | .ended result => some result
  | _ => none

/-- A run before a time that is left as soon as nodes are served and so many were written. -/
def serveUntil (writes time : Nat) (c : Controller) : Controller :=
  runWhile (fun due c => due < time && !(c.isReady && writes ≤ c.world.store.writes))
    (c.eventBound (time - c.world.clock)) c

end Controller

end HostSubnets
