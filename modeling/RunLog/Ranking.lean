import RunLog.Groups
import RunLog.Run.Record
import RunLog.Series

/-!
# Rankings

Runs are ranked by their throughput, or by the throughput of one component.
The largest value comes first, runs without a value come last, and runs with
one value keep their order. A leaderboard ranks the runs of one kind at one
thread count.
-/
namespace RunLog

inductive Criterion where
  | throughput
  | component (name : Text)
  deriving DecidableEq, Repr

namespace Criterion

/-- The value of a run; a component's throughput counts only if it is finite. -/
def value? (criterion : Criterion) (r : Record) : Option Float :=
  match criterion with
  | .throughput => some r.throughput
  | .component name => (r.componentThroughput? name).filter Float.isFinite

def label : Criterion → Text
  | .throughput => "throughput".toList
  | .component name => name ++ " throughput".toList

end Criterion

namespace Ranking

/-- Larger values first, absent values last. -/
def before : Option Float → Option Float → Bool
  | some a, some b => Decimal.totalLE b a
  | some _, none => true
  | none, some _ => false
  | none, none => true

/-- Items in order of their values; items of one value keep their order. -/
def order {α : Type} (value? : α → Option Float) (items : List α) : List α :=
  let valued := items.map fun item => (value? item, item)
  (valued.mergeSort fun a b => before a.1 b.1).map Prod.snd

def rank (criterion : Criterion) (runs : List Record) : List Record :=
  order criterion.value? runs

def best (criterion : Criterion) (runs : List Record) : Option Record :=
  (rank criterion runs).head?

end Ranking

structure BoardEntry where
  rank : Nat
  variant : Variant
  throughput : Float
  value : Option Float

/-- The ranked runs of one kind at one thread count. -/
structure Leaderboard where
  kind : Kind
  threads : Nat
  entries : List BoardEntry

namespace Leaderboard

/-- The ranked runs with their ranks, counted from zero. -/
def entriesOf (criterion : Criterion) (runs : List Record) : List BoardEntry :=
  (Ranking.rank criterion runs).zipIdx.map fun (r, n) =>
    ⟨n, r.variant, r.throughput, criterion.value? r⟩

/-- The boards of all runs: kinds as they are first seen, thread counts ascending. -/
def ofRecords (criterion : Criterion) (runs : List Record) : List Leaderboard :=
  (Groups.ofList Record.kind runs).entries.flatMap fun (kind, ofKind) =>
    (Groups.ofList Record.threads ofKind).sorted.map fun (threads, group) =>
      ⟨kind, threads, entriesOf criterion group⟩

end Leaderboard

namespace Series

/-- The best throughput at each thread count, ascending. -/
def bestPoints (runs : List Record) : List (Nat × Float) :=
  (Groups.ofList Record.threads runs).sorted.filterMap fun (threads, group) =>
    (Ranking.best .throughput group).map fun r => (threads, r.throughput)

def best (runs : List Record) : Series :=
  ⟨"best".toList, bestPoints runs⟩

def ofVariant (v : Variant) (runs : List Record) : Series :=
  ⟨v.label, bestPoints (runs.filter (·.variant = v))⟩

end Series

namespace Chart

/-- The variants of some runs whose label contains a text, as they are first seen; without a
text there are none. -/
def highlighted (highlight : Option Text) (runs : List Record) : List Variant :=
  match highlight with
  | none => []
  | some part =>
      (Groups.ofList Record.variant runs).keys.filter (Variant.labelContains · part)

/-- The best runs of a kind, followed by a series for each highlighted variant. -/
def best (kind : Kind) (highlight : Option Text) (records : List Record) : Chart :=
  let runs := records.filter (·.kind = kind)
  { title := "best-".toList ++ kind.name
    series :=
      Series.best runs :: (highlighted highlight runs).map (Series.ofVariant · runs) }

/-- One chart for each kind, in the order in which the kinds are first seen. -/
def all (highlight : Option Text) (records : List Record) : List Chart :=
  (Groups.ofList Record.kind records).keys.map (best · highlight records)

end Chart

end RunLog
