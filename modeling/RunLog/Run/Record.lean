import RunLog.Kind
import RunLog.Metric
import RunLog.Variant

/-!
# Records of runs

A record holds what one complete run of a benchmark reports. Runs of a workload
benchmark know their schema file and the metrics of each component; runs of the
micro benchmark know the share of lookups, the sizes of the data structure and
the parameters they were started with.
-/
namespace RunLog

inductive Details where
  | workload (schemaFile : Option Text) (components : Dictionary Metrics)
  | micro (workloadMix initialSize expectedFinalSize : Nat) (inputs : Dictionary Text)

structure Record where
  kind : Kind
  variant : Variant
  threads : Nat
  throughput : Float
  summary : Metrics
  details : Details
  /-- The throughput in percent of the best comparable run, once it is known. -/
  closeToMax : Option Float

namespace Record

def workloadMix (r : Record) : Option Nat :=
  match r.details with
  | .micro mix _ _ _ => some mix
  | .workload _ _ => none

def initialSize (r : Record) : Option Nat :=
  match r.details with
  | .micro _ size _ _ => some size
  | .workload _ _ => none

def expectedFinalSize (r : Record) : Option Nat :=
  match r.details with
  | .micro _ _ size _ => some size
  | .workload _ _ => none

def schemaFile (r : Record) : Option Text :=
  match r.details with
  | .workload file _ => file
  | .micro _ _ _ _ => none

def component? (r : Record) (name : Text) : Option Metrics :=
  match r.details with
  | .workload _ components => components.get? name
  | .micro _ _ _ _ => none

/-- The throughput of a component, when it is a number. -/
def componentThroughput? (r : Record) (name : Text) : Option Float :=
  (r.component? name).bind fun metrics =>
    (metrics.get? "throughput".toList).bind Metric.number?

end Record

end RunLog
