import RunLog.Decimal.Layout
import RunLog.Report.Table

/-!
# Sample runs of the micro benchmark

The text that one run of the micro benchmark prints: the block of its input
parameters, chatter, and the figures at the end. A fresh sample is a run that
reads without a fault.
-/
namespace RunLog.Sample

structure Micro where
  structureName : Text
  synchronization : Text
  threads : Nat
  initialSize : Nat
  lookupShare : Text
  implementation : Option Text
  throughput : Float
  /-- The expected final size, where it differs from the initial size. -/
  expectedSize : Option Nat

namespace Micro

/-- A run of a data structure on one thread, half of whose operations are lookups. -/
def ofNames (structureName synchronization : Text) : Micro :=
  { structureName := structureName
    synchronization := synchronization
    threads := 1
    initialSize := 100000
    lookupShare := "50".toList
    implementation := none
    throughput := 1
    expectedSize := none }

/-- The share of insertions: half of what the lookups leave, or none if their share is no
number. -/
def insertShare (lookupShare : Text) : Nat :=
  match Decimal.readNatural? Decimal.wordLimit lookupShare with
  | some lookups => (100 - lookups) / 2
  | none => 0

def inputLine (key : String) (value : Text) : Text :=
  "  ".toList ++ key.toList ++ ": ".toList ++ value ++ ['\n']

/-- The largest key: twice the initial size, in a word of 64 bits. -/
def largestKey (initialSize : Nat) : Nat :=
  initialSize * 2 % Decimal.sizeLimit

def inputLines (s : Micro) : Text :=
  inputLine "num_threads" (Decimal.natural s.threads) ++
    inputLine "init_tree_size" (Decimal.natural s.initialSize) ++
    inputLine "max_key" (Decimal.natural (largestKey s.initialSize)) ++
    inputLine "lookup_frac" s.lookupShare ++
    inputLine "rqery_frac" "0".toList ++
    inputLine "insert_frac" (Decimal.natural (insertShare s.lookupShare)) ++
    inputLine "init_seed" "1024".toList ++
    inputLine "thread_seed" "128".toList ++
    inputLine "ds_name" s.structureName ++
    inputLine "sync_type" s.synchronization ++
    inputLine "run_time_sec" "5".toList

def implementationLine : Option Text → Text
  | some signature => "RBT implementation ".toList ++ signature ++ ['\n']
  | none => []

def text (s : Micro) : Text :=
  "Inputs:\n".toList ++
    "====================\n".toList ++
    inputLines s ++
    "\nBenchmark\n".toList ++
    "=======================\n".toList ++
    "  MAP implementation: ".toList ++ s.structureName ++ "\n\n".toList ++
    "Tree initialization (at core 0)...\n".toList ++
    "Initialization finished in 0.12 sec\n".toList ++
    implementationLine s.implementation ++
    "\nTime elapsed:   5.00\n".toList ++
    "Throughput(Ops/usec): ".toList ++ Table.padLeft 7 (Decimal.fixed 3 s.throughput) ++
    "\nExpected size of MAP: ".toList ++
    Decimal.natural (s.expectedSize.getD s.initialSize) ++ ['\n']

end Micro

end RunLog.Sample
