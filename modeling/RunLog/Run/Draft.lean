import RunLog.Run.Fault
import RunLog.Run.Record

/-!
# Drafts of records

A draft collects what a log says about one run. Setting a field again replaces
its value. A draft is complete when every field that its kind asks for is
known; what a log does not state outright is taken from the input parameters or
from the overall summary. The fields are checked in one order, and the first
one that fails decides.
-/
namespace RunLog

structure Draft where
  kind : Option Kind
  variant : Option Variant
  threads : Option Nat
  throughput : Option Float
  summary : Metrics
  schemaFile : Option Text
  components : Dictionary Metrics
  workloadMix : Option Nat
  initialSize : Option Nat
  expectedFinalSize : Option Nat
  inputs : Dictionary Text

namespace Draft

def empty : Draft :=
  { kind := none
    variant := none
    threads := none
    throughput := none
    summary := ∅
    schemaFile := none
    components := ∅
    workloadMix := none
    initialSize := none
    expectedFinalSize := none
    inputs := ∅ }

def withComponent (d : Draft) (name : Text) (metrics : Metrics) : Draft :=
  { d with components := d.components.insert name metrics }

def withInput (d : Draft) (key value : Text) : Draft :=
  { d with inputs := d.inputs.insert key value }

/-- A number below `limit` from the input parameter `key`, reported as `field` when it fails. -/
def inputNumber (d : Draft) (limit : Nat) (key field : Text) : Except Shortfall Nat :=
  match d.inputs.get? key with
  | none => .error (.missing field)
  | some raw =>
      match Decimal.readNatural? limit (Text.trim raw) with
      | none => .error (.badValue field raw)
      | some n => .ok n

/-- The number of threads as the log states it. -/
def statedThreads (d : Draft) : Except Shortfall Nat :=
  match d.threads with
  | some n => .ok n
  | none => d.inputNumber Decimal.wordLimit "num_threads".toList "threads".toList

/-- The number of threads, which is never zero. -/
def completeThreads (d : Draft) : Except Shortfall Nat :=
  match d.statedThreads with
  | .error e => .error e
  | .ok n => if n = 0 then .error (.badValue "threads".toList "0".toList) else .ok n

/-- The variant, put together from the names of the data structure and of its
synchronization if need be. -/
def completeVariant (d : Draft) : Except Shortfall Variant :=
  match d.variant with
  | some v => .ok v
  | none =>
      match d.inputs.get? "ds_name".toList with
      | none => .error (.missing "variant".toList)
      | some name =>
          match d.inputs.get? "sync_type".toList with
          | none => .ok (Variant.read name)
          | some sync => .ok (Variant.read (name ++ '(' :: (sync ++ [')'])))

/-- The throughput as the log states it: by itself, or in the overall summary. -/
def statedThroughput (d : Draft) : Except Shortfall Float :=
  match d.throughput with
  | some x => .ok x
  | none =>
      match d.summary.get? "throughput".toList with
      | some (.number x) => .ok x
      | some (.text raw) => .error (.badValue "throughput".toList raw)
      | none => .error (.missing "throughput".toList)

/-- The throughput, which is finite and above zero. -/
def completeThroughput (d : Draft) : Except Shortfall Float :=
  match d.statedThroughput with
  | .error e => .error e
  | .ok x =>
      if x.isFinite ∧ 0 < x then .ok x
      else .error (.badValue "throughput".toList (Decimal.plain x))

/-- A field that may be set, and is read from the input parameter of its name otherwise. -/
def setOrInput (d : Draft) (known : Option Nat) (limit : Nat) (field : Text) :
    Except Shortfall Nat :=
  match known with
  | some n => .ok n
  | none => d.inputNumber limit field field

/-- What only runs of the given kind report. -/
def completeDetails (d : Draft) (kind : Kind) : Except Shortfall Details :=
  if kind.isWorkload then .ok (.workload d.schemaFile d.components)
  else do
    let mix ← d.setOrInput d.workloadMix Decimal.wordLimit "lookup_frac".toList
    let size ← d.setOrInput d.initialSize Decimal.sizeLimit "init_tree_size".toList
    match d.expectedFinalSize with
    | none => .error (.missing "expected_final_size".toList)
    | some final => .ok (.micro mix size final d.inputs)

/-- The record of a complete draft; its summary tells the throughput that counts. -/
def complete (d : Draft) : Except Shortfall Record :=
  match d.kind with
  | none => .error (.missing "bench".toList)
  | some kind => do
      let threads ← d.completeThreads
      let variant ← d.completeVariant
      let throughput ← d.completeThroughput
      let details ← d.completeDetails kind
      .ok
        { kind := kind
          variant := variant
          threads := threads
          throughput := throughput
          summary := d.summary.insert "throughput".toList (.number throughput)
          details := details
          closeToMax := none }

end Draft

end RunLog
