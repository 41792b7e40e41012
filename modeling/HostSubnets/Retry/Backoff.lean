import HostSubnets.Retry.Duration

/-!
# Repeated attempts with growing delays

* `Backoff` : how often to try and how long to wait in between;
* `Backoff.next?` : the delay after a delay, none if the product is no length of time;
  `Backoff.next` takes such a product to be above every cap;
* `Backoff.admits` : whether a delay and the one after it are lengths of time;
* `retry` : attempts until one succeeds, fails for good, or is the last one. It is written for any
  kind of effect, with one operation for an attempt and one for a pause;
* `retryTrace` : the attempts and pauses for known outcomes.
-/

namespace HostSubnets

structure Backoff where
  /-- Number of attempts, the first one included; at least one is made. -/
  steps : Nat
  duration : Duration
  /-- What each delay is multiplied by; below one it counts as one. -/
  factor : Double
  /-- By how much of itself a delay may be stretched. -/
  jitter : Double
  /-- No delay but the first is longer. -/
  cap : Duration
deriving DecidableEq, Repr

namespace Backoff

def standard : Backoff where
  steps := 4
  duration := .ofMillis 10
  factor := .ofRatio false 5 1
  jitter := .ofRatio false 1 10
  cap := .ofSeconds 5

/-- The factor in use. -/
def growth (b : Backoff) : Double := if b.factor.exceedsOne then b.factor else .one

/-- The delay that follows a delay, if the stretched delay is a length of time. -/
def next? (b : Backoff) (delay : Duration) : Option Duration :=
  (delay.scale? b.growth).map fun stretched => stretched.min b.cap

def next (b : Backoff) (delay : Duration) : Duration := (b.next? delay).getD b.cap

/-- Whether delays are slept as they are. -/
def isSteady (b : Backoff) : Bool := b.jitter.isNonpositive

def longest? (b : Backoff) (delay : Duration) : Option Duration :=
  if b.isSteady then some delay else delay.scale? (b.jitter.add .one)

/-- Whether a delay can be slept, however far it is stretched, and the one after it be computed. -/
def admits (b : Backoff) (delay : Duration) : Bool :=
  (b.longest? delay).isSome && (b.next? delay).isSome

end Backoff

section Retry

variable {m : Type → Type} [Monad m] {ε α : Type}

def retryFrom (backoff : Backoff) (retryable : ε → Bool) (pause : Duration → m Unit)
    (attempt : m (Except ε α)) : (retries : Nat) → (delay : Duration) → m (Except ε α)
  | 0, _ => attempt
  | retries + 1, delay => do
    match ← attempt with
    | .ok value => pure (.ok value)
    | .error e =>
      if retryable e then do
        pause delay
        retryFrom backoff retryable pause attempt retries (backoff.next delay)
      else pure (.error e)

/-- Attempts until one succeeds or fails with an error that is not retryable; at most
`backoff.steps`. -/
def retry (backoff : Backoff) (retryable : ε → Bool) (pause : Duration → m Unit)
    (attempt : m (Except ε α)) : m (Except ε α) :=
  retryFrom backoff retryable pause attempt (backoff.steps - 1) backoff.duration

end Retry

structure RetryTrace where
  attempts : Nat
  pauses : List Duration

namespace RetryTrace

def start : RetryTrace := ⟨0, []⟩

/-- Times of the attempts in milliseconds when every delay is slept as it is, from `now` on. -/
def timesFrom (now : Nat) : List Duration → List Nat
  | [] => [now]
  | delay :: rest => now :: timesFrom (now + delay.ticks) rest

def times (t : RetryTrace) : List Nat := timesFrom 0 t.pauses.reverse

end RetryTrace

/-- The result of attempts with known outcomes, and how it was reached. -/
def retryTrace {ε α : Type} (backoff : Backoff) (retryable : ε → Bool)
    (outcome : Nat → Except ε α) : Except ε α × RetryTrace :=
  let attempt : StateM RetryTrace (Except ε α) := fun t =>
    (outcome t.attempts, { t with attempts := t.attempts + 1 })
  let pause (delay : Duration) : StateM RetryTrace Unit := fun t =>
    ((), { t with pauses := delay :: t.pauses })
  retry backoff retryable pause attempt .start

end HostSubnets
