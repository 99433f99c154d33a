import RunLog.Text.Blank

/-!
# Kinds of benchmark

Workload benchmarks run a database on top of the data structure and are known
by the name of the workload. The micro benchmark drives the data structure
alone. A workload may have any name, also that of a known kind.
-/
namespace RunLog

inductive Kind where
  | tpcc
  | tpccReadOnly
  | ycsb
  | test
  | micro
  | other (name : Text)
  deriving DecidableEq, Repr

namespace Kind

/-- The kind that a log announces by the first word of a workload's title. -/
def ofWord (word : Text) : Kind :=
  if word = "TPCC".toList then .tpcc
  else if word = "READ".toList then .tpccReadOnly
  else if word = "YCSB".toList then .ycsb
  else if word = "TEST".toList then .test
  else .other word

def name : Kind → Text
  | .tpcc => "TPCC".toList
  | .tpccReadOnly => "TPCC-READONLY".toList
  | .ycsb => "YCSB".toList
  | .test => "TEST".toList
  | .micro => "MICRO".toList
  | .other name => name

def isWorkload : Kind → Bool
  | .micro => false
  | _ => true

/-- The known kinds come first, in this order. -/
def position : Kind → Nat
  | .tpcc => 0
  | .tpccReadOnly => 1
  | .ycsb => 2
  | .test => 3
  | .micro => 4
  | .other _ => 5

/-- By position, then by name. -/
instance : Ord Kind :=
  ⟨compareLex (compareOn position) (compareOn name)⟩

end Kind

end RunLog
