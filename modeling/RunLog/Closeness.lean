import RunLog.Groups
import RunLog.Run.Record

/-!
# Closeness to the maximum

Runs are comparable when they share the number of threads, the share of lookups
and the initial size. Each run is measured against the best comparable one, in
percent. The values are found one configuration after another, and then written
down at the places of their runs.
-/
namespace RunLog

structure Configuration where
  threads : Nat
  workloadMix : Option Nat
  initialSize : Option Nat
  deriving DecidableEq, Repr

namespace Configuration

def ofRecord (r : Record) : Configuration :=
  ⟨r.threads, r.workloadMix, r.initialSize⟩

/-- By threads, then by share of lookups, then by initial size. -/
instance : Ord Configuration :=
  ⟨compareLex (compareOn threads) (compareLex (compareOn workloadMix) (compareOn initialSize))⟩

end Configuration

namespace Closeness

def larger (a b : Float) : Float :=
  if a < b then b else a

/-- The largest throughput of some runs. -/
def peak (runs : List Record) : Float :=
  (runs.map Record.throughput).foldl larger 0

def percent (throughput maximum : Float) : Float :=
  throughput / maximum * 100

/-- The values of the runs of one configuration, each with the place of its run. -/
def valuesOfMembers (members : List (Record × Nat)) : List (Nat × Float) :=
  let best := peak (members.map Prod.fst)
  members.map fun (r, place) => (place, percent r.throughput best)

/-- The values of all runs, one configuration after another. -/
def values (runs : List Record) : List (Nat × Float) :=
  (Groups.ofList (fun (r, _) => Configuration.ofRecord r) runs.zipIdx).entries.flatMap
    fun (_, members) => valuesOfMembers members

/-- Writes each value down at its place. -/
def writeDown (runs : Array Record) (values : List (Nat × Float)) : Array Record :=
  values.foldl (fun runs (place, value) =>
    runs.modify place fun r => { r with closeToMax := some value }) runs

/-- Measures each run against the best run of its configuration. -/
def annotate (runs : List Record) : List Record :=
  (writeDown runs.toArray (values runs)).toList

end Closeness

end RunLog
