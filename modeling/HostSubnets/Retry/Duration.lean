import HostSubnets.Number.Double

/-!
# Lengths of time

* `Duration` : whole nanoseconds;
* `Duration.scale?` : a length stretched by a factor. It is taken as a double precision number of
  seconds, multiplied, and rounded to nanoseconds; a product of 2 ^ 64 seconds or more is none;
* `Duration.stretch` : a length with half of what it may be stretched by;
* `Duration.ticks` : what a pause takes in whole milliseconds. Pauses end with a millisecond, and
  after thirty years.
-/

namespace HostSubnets

structure Duration where
  nanos : Nat
deriving DecidableEq, Repr

namespace Duration

def nanosPerSecond : Nat := 10 ^ 9

def ofMicros (n : Nat) : Duration := ⟨n * 1000⟩

def ofMillis (n : Nat) : Duration := ⟨n * 10 ^ 6⟩

def ofSeconds (n : Nat) : Duration := ⟨n * nanosPerSecond⟩

/-- The length in seconds, whole seconds and the rest rounded apart. -/
def seconds (d : Duration) : Double :=
  (Double.ofRatio false (d.nanos / nanosPerSecond) 1).add
    (Double.ofRatio false (d.nanos % nanosPerSecond) nanosPerSecond)

def ofSeconds? : Double → Option Duration
  | .finite _ mantissa exponent =>
    let (n, d) := Double.ratio mantissa exponent
    if 2 ^ 64 * d ≤ n then none else some ⟨roundDiv (n * nanosPerSecond) d⟩
  | _ => none

def scale? (d : Duration) (factor : Double) : Option Duration :=
  (factor.mul? d.seconds).bind ofSeconds?

def min (a b : Duration) : Duration := if b.nanos < a.nanos then b else a

/-- The length with half of a part of itself, if the part is positive. -/
def stretch (d : Duration) (part : Double) : Duration :=
  if part.isNonpositive then d
  else ((part.mul? (.ofRatio false 1 2)).bind fun half => d.scale? (half.add .one)).getD d

def maxPause : Duration := .ofSeconds (30 * 365 * 86400)

/-- What a pause of the length takes in whole milliseconds, rounded up. -/
def ticks (d : Duration) : Nat := ((d.min maxPause).nanos + 999999) / 10 ^ 6

theorem ticks_le (d : Duration) : d.ticks ≤ maxPause.ticks := by
  have shorter : (d.min maxPause).nanos ≤ (maxPause.min maxPause).nanos := by
    unfold min
    rw [if_neg (Nat.lt_irrefl maxPause.nanos)]
    split <;> omega
  exact Nat.div_le_div_right (Nat.add_le_add_right shorter 999999)

end Duration

end HostSubnets
