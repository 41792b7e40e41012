import HostSubnets.Metrics

/-!
# The text of the metrics

The lines by which the metrics are served: for each metric what it is about and of which kind it is,
and a sample for every value that was recorded. How long runs took is not recorded here, so that
metric has no samples.

* `Sample`, `Sample.line` : a value with its labels;
* `MetricFamily.lines` : the lines of one metric;
* `Metrics.lines` : all lines.
-/

namespace HostSubnets

structure Sample where
  labels : List (String × String)
  value : Nat

/-- A metric and its samples. -/
structure MetricFamily where
  name : String
  /-- What samples have behind the name. -/
  ending : String
  help : String
  kind : String
  unit : Option String
  samples : List Sample

def metricScope : String := "mesh_cni_node_ipam_"

def Sample.line (name : String) (s : Sample) : String :=
  let labels := s.labels.map fun e => e.1 ++ "=\"" ++ e.2 ++ "\""
  name ++ "\x7b" ++ String.intercalate "," labels ++ "\x7d " ++ toString s.value

def MetricFamily.lines (f : MetricFamily) : List String :=
  let name := metricScope ++ f.name
  ["# HELP " ++ name ++ " " ++ f.help, "# TYPE " ++ name ++ " " ++ f.kind] ++
    (f.unit.map fun unit => "# UNIT " ++ name ++ " " ++ unit).toList ++
    f.samples.map (Sample.line (name ++ f.ending))

namespace Metrics

def resourceLabel : String × String := ("resource", "node")

/-- The samples of a gauge; none if nothing was recorded. -/
def gaugeSamples (gauge : Option (PerFamily Nat)) : List Sample :=
  match gauge with
  | none => []
  | some figures =>
    [⟨[("family", Family.v4.name)], figures.v4⟩, ⟨[("family", Family.v6.name)], figures.v6⟩]

def durationFamily : MetricFamily where
  name := "reconcile_duration_seconds"
  ending := ""
  help := "reconcile duration."
  kind := "histogram"
  unit := some "seconds"
  samples := []

def failureFamily (c : Counts) : MetricFamily where
  name := "reconcile_failures"
  ending := "_total"
  help := "Number of reconciliation errors."
  kind := "counter"
  unit := none
  samples := c.failures.entries.map fun e => ⟨[resourceLabel, ("error", e.1)], e.2⟩

def runFamily (c : Counts) : MetricFamily where
  name := "reconcile_runs"
  ending := "_total"
  help := "Number of reconciliations."
  kind := "counter"
  unit := none
  samples := if c.runs = 0 then [] else [⟨[resourceLabel], c.runs⟩]

def capacityFamily (g : Gauges) : MetricFamily where
  name := "host_subnets"
  ending := ""
  help := "Number of host subnets in the cluster subnet pool."
  kind := "gauge"
  unit := none
  samples := gaugeSamples g.capacity

def allocatedFamily (g : Gauges) : MetricFamily where
  name := "allocated_host_subnets"
  ending := ""
  help := "Number of host subnets allocated to nodes."
  kind := "gauge"
  unit := none
  samples := gaugeSamples g.allocated

def families (m : Metrics) : List MetricFamily :=
  [durationFamily, failureFamily m.counts, runFamily m.counts, capacityFamily m.gauges,
    allocatedFamily m.gauges]

def lines (m : Metrics) : List String := m.families.flatMap (·.lines) ++ ["# EOF"]

def gaugeLines (m : Metrics) : List String :=
  [allocatedFamily m.gauges, capacityFamily m.gauges].flatMap fun f =>
    f.samples.map (Sample.line (metricScope ++ f.name))

end Metrics

end HostSubnets
