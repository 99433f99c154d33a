import RunLog.Decimal.Layout

/-!
# Sample runs of workload benchmarks

The text that one run of a workload benchmark prints, with the chatter between
its markers. A fresh sample is a run that reads without a fault.
-/
namespace RunLog.Sample

structure Workload where
  bench : Text
  schema : Option Text
  signature : Option Text
  /-- Whether the signature stands on a line of its own. -/
  bracketed : Bool
  threads : Text
  components : List (Text × Float)
  throughput : Option Float
  /-- Whether the run comes to its summary line. -/
  terminated : Bool

namespace Workload

/-- A run of a benchmark on one thread. -/
def ofBench (bench : Text) : Workload :=
  { bench := bench
    schema := some ("benchmarks/".toList ++ bench ++ "_schema.txt".toList)
    signature := some "BST Unbalanced External (cg-htm)".toList
    bracketed := false
    threads := "1".toList
    components := []
    throughput := some 1
    terminated := true }

def title (bench : Text) : Text :=
  if bench = "TPCC-READONLY".toList then "READ ONLY TPCC".toList else bench

def signatureLine (bracketed : Bool) (signature : Text) : Text :=
  (if bracketed then "[ type: ".toList else "Initiating Map... [ type: ".toList) ++
    signature ++ " ]\n".toList

def componentLine (component : Text × Float) : Text :=
  "Per-index stats: index=".toList ++ component.1 ++
    ", table_size=100000, throughput=".toList ++ Decimal.plain component.2 ++ ['\n']

def summaryLine (throughput : Option Float) : Text :=
  "[summary] txn_cnt=100000, abort_cnt=12, run_time=5.000".toList ++
    (match throughput with
      | some x => ", throughput=".toList ++ Decimal.plain x
      | none => []) ++ ['\n']

/-- The text of a line that may be left out. -/
def optional {α : Type} (line : α → Text) : Option α → Text
  | some a => line a
  | none => []

def text (s : Workload) : Text :=
  "mem_allocator initialized!\n".toList ++
    "Running ".toList ++ title s.bench ++ " workload\n".toList ++
    optional (fun path => "Reading schema file: ".toList ++ path ++ ['\n']) s.schema ++
    "Workload initialized!\n".toList ++
    optional (signatureLine s.bracketed) s.signature ++
    "running ".toList ++ s.threads ++ " threads\n".toList ++
    "query_queue initialized!\n".toList ++
    "using NO_WAIT concurrency control\n".toList ++
    "WARMUP start!\n".toList ++
    "WARMUP finished!\n".toList ++
    s.components.flatMap componentLine ++
    if s.terminated then summaryLine s.throughput else []

end Workload

end RunLog.Sample
