import RunLog.Sample.Micro
import RunLog.Sample.Workload

/-!
# Sample logs

Small but realistic logs: several variants at several thread counts, with
configurations that occur more than once, so that rankings have something to
compare. Faulty logs hold one run that is dropped and a good one behind it;
noise holds no run at all.
-/
namespace RunLog.Sample

def variants : List Text :=
  ["BST Unbalanced External (cg-htm)", "(a,b)-tree (RCU-HTM)",
    "(a-b)-tree Brown (LLX/SCX)"].map String.toList

def threadCounts : List Nat :=
  [1, 4, 16]

/-- A workload log: the throughput grows with the threads and with the place of the variant. -/
def workloadLog (bench component : Text) : Text :=
  threadCounts.flatMap fun threads =>
    variants.zipIdx.flatMap fun (signature, i) =>
      let throughput := (threads * (i + 1)).toFloat
      Workload.text
        { Workload.ofBench bench with
          signature := some signature
          threads := Decimal.natural threads
          components := [(component, throughput * 2)]
          throughput := some throughput }

def tpccLog : Text :=
  workloadLog "TPCC".toList "DISTRICT_IDX".toList

def ycsbLog : Text :=
  workloadLog "YCSB".toList "MAIN_INDEX".toList

def structures : List (String × String × Float) :=
  [("bst-avl-bronson", "cg-htm", 8), ("treap", "rcu-htm", 2)]

/-- Runs of two data structures at two shares of lookups. -/
def microLog : Text :=
  threadCounts.flatMap fun threads =>
    [50, 90].flatMap fun share =>
      structures.flatMap fun (structureName, synchronization, throughput) =>
        Micro.text
          { Micro.ofNames structureName.toList synchronization.toList with
            threads := threads
            lookupShare := Decimal.natural share
            throughput := throughput }

def recoveryThroughput : Float := 7

def goodRun : Workload :=
  { Workload.ofBench "YCSB".toList with
    threads := "2".toList
    throughput := some recoveryThroughput }

/-- One run with a fault each, under the name of the fault. -/
def faultyRuns : List (String × Text) :=
  let ycsb := Workload.ofBench "YCSB".toList
  let tpcc := Workload.ofBench "TPCC".toList
  let treap := Micro.ofNames "treap".toList "cg-htm".toList
  [("unterminated_run", Workload.text { ycsb with terminated := false }),
    ("non_numeric_threads", Workload.text { ycsb with threads := "many".toList }),
    ("missing_throughput", Workload.text { tpcc with throughput := none }),
    ("missing_variant", Workload.text { tpcc with signature := none }),
    ("component_without_index",
      Text.replace "WARMUP finished!\n".toList
        "WARMUP finished!\nPer-index stats: throughput=1.0\n".toList ycsb.text),
    ("summary_pair_without_equals",
      Text.replace "abort_cnt=12".toList "abort_cnt".toList ycsb.text),
    ("non_numeric_lookup_frac", Micro.text { treap with lookupShare := "half".toList }),
    ("non_numeric_micro_throughput",
      Text.replace "Throughput(Ops/usec):   1.000".toList "Throughput(Ops/usec): -nan".toList
        treap.text)]

/-- The faulty logs under the names of their faults. -/
def faultyLogs : List (Text × Text) :=
  faultyRuns.map fun (name, run) => (name.toList, run ++ goodRun.text)

def noise : List (Text × Text) :=
  [("empty", ""), ("whitespace_only", "   \n\t\n\n"),
    ("banner_only", "Benchmark\n=======================\n"),
    ("orphan_summary", "[summary] throughput=1.0\n"),
    ("orphan_terminator", "Expected size of MAP: 10\n"),
    ("fields_without_start", "running 4 threads\nRunning YCSB workload\n")].map
    fun (name, log) => (name.toList, log.toList)

end RunLog.Sample
