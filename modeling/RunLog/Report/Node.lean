import RunLog.Ranking

/-!
# Structured data

Records and charts as trees of sequences and mappings, which the data formats
write down. A mapping lists its fields in the order in which they are written.
-/
namespace RunLog

inductive Node where
  | null
  | natural (n : Nat)
  | real (x : Float)
  | text (t : Text)
  | sequence (items : List Node)
  | mapping (fields : List (Text × Node))

namespace Node

def optional {α : Type} (node : α → Node) : Option α → Node
  | some a => node a
  | none => .null

/-- A field with a plain name. -/
def field (name : String) (node : Node) : Text × Node :=
  (name.toList, node)

/-- A dictionary, in key order. -/
def ofDictionary {α : Type} (node : α → Node) (d : Dictionary α) : Node :=
  .mapping (d.entries.map fun (key, a) => (key, node a))

/-- A metric: a number or a text. -/
def ofMetric : Metric → Node
  | .number x => .real x
  | .text t => .text t

def ofVariant (v : Variant) : Node :=
  .mapping [field "base" (.text v.base), field "subtype" (optional .text v.subtype)]

/-- The details of a run, told apart by their first field. -/
def ofDetails : Details → Node
  | .workload file components =>
      .mapping
        [field "log" (.text "macro".toList),
          field "schema_file" (optional .text file),
          field "components" (ofDictionary (ofDictionary ofMetric) components)]
  | .micro mix initial final inputs =>
      .mapping
        [field "log" (.text "micro".toList),
          field "workload_mix" (.natural mix),
          field "initial_size" (.natural initial),
          field "expected_final_size" (.natural final),
          field "inputs" (ofDictionary .text inputs)]

/-- The closeness of a run as a last field, once it is known. -/
def closenessFields : Option Float → List (Text × Node)
  | some x => [field "close_to_max" (.real x)]
  | none => []

def ofRecord (r : Record) : Node :=
  .mapping
    ([field "kind" (.text r.kind.name),
        field "variant" (ofVariant r.variant),
        field "threads" (.natural r.threads),
        field "throughput" (.real r.throughput),
        field "summary" (ofDictionary ofMetric r.summary),
        field "details" (ofDetails r.details)] ++
      closenessFields r.closeToMax)

def ofRecords (records : List Record) : Node :=
  .sequence (records.map ofRecord)

def ofSeries (s : Series) : Node :=
  .mapping
    [field "label" (.text s.label),
      field "x" (.sequence (s.threads.map .natural)),
      field "y" (.sequence (s.throughputs.map .real))]

def ofChart (c : Chart) : Node :=
  .mapping
    [field "title" (.text c.title), field "series" (.sequence (c.series.map ofSeries))]

end Node

end RunLog
