import HostSubnets.Error
import HostSubnets.Pool.Basic

/-!
# Figures about a controller

* `Gauges` : capacity and usage of the cluster pool as last recorded. A gauge is a signed number of
  64 bits, so that larger figures become the largest one (`Gauges.limit`);
* `Counts` : runs, and failures by kind;
* `Metrics` : all of them.
-/

namespace HostSubnets

structure Gauges where
  /-- Host subnets in all; none as long as nothing was recorded. -/
  capacity : Option (PerFamily Nat)
  allocated : Option (PerFamily Nat)
deriving DecidableEq, Repr

namespace Gauges

def limit : Nat := 2 ^ 63 - 1

def unset : Gauges := ⟨none, none⟩

/-- The value that a gauge takes. -/
def clamp (figures : PerFamily Nat) : PerFamily Nat :=
  ⟨min figures.v4 limit, min figures.v6 limit⟩

def recordCapacity (figures : PerFamily Nat) (g : Gauges) : Gauges :=
  { g with capacity := some (clamp figures) }

def recordAllocated (figures : PerFamily Nat) (g : Gauges) : Gauges :=
  { g with allocated := some (clamp figures) }

def value (gauge : Option (PerFamily Nat)) : PerFamily Nat := gauge.getD ⟨0, 0⟩

end Gauges

/-- How often nodes were reconciled. -/
structure Counts where
  runs : Nat
  /-- Failed runs by the label of their error. -/
  failures : SortedMap String Nat

namespace Counts

def zero : Counts := ⟨0, .empty⟩

def addRun (c : Counts) : Counts := { c with runs := c.runs + 1 }

def addFailure (e : ControlError) (c : Counts) : Counts :=
  { c with failures := c.failures.insert e.label ((c.failures.find? e.label).getD 0 + 1) }

end Counts

structure Metrics where
  gauges : Gauges
  counts : Counts

def Metrics.unset : Metrics := ⟨.unset, .zero⟩

end HostSubnets
