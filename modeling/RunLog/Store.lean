import RunLog.Closeness
import RunLog.Log.Outcome

/-!
# Stores of records

A store gathers the runs of several sources. A source that cannot be read to
its end, or that a strict reading gives up, leaves nothing behind.
-/
namespace RunLog

structure Diagnostic where
  source : Text
  fault : Fault
  deriving DecidableEq, Repr

def Diagnostic.message (d : Diagnostic) : Text :=
  d.source ++ ": ".toList ++ d.fault.message

/-- The records and diagnostics of all sources, in the order in which they came. -/
structure Store where
  options : Options
  records : List Record
  diagnostics : List Diagnostic
  sources : Nat

namespace Store

def empty (options : Options) : Store :=
  ⟨options, [], [], 0⟩

/-- A store of given records, which come from no source. -/
def ofRecords (records : List Record) : Store :=
  { empty Options.standard with records := records }

/-- Adds what was read from a source. -/
def add (s : Store) (name : Text) (outcome : Outcome) : Store :=
  { s with
    records := s.records ++ outcome.records
    diagnostics := s.diagnostics ++ outcome.faults.map (⟨name, ·⟩)
    sources := s.sources + 1 }

/-- Reads a source into the store, and tells how many runs it added. -/
def ingest (s : Store) (name : Text) (source : Source) : Except Fault (Store × Nat) :=
  (Outcome.ofSource s.options source).map fun outcome =>
    (s.add name outcome, outcome.records.length)

def push (s : Store) (r : Record) : Store :=
  { s with records := s.records ++ [r] }

/-- Measures every record against the best comparable one. -/
def annotate (s : Store) : Store :=
  { s with records := Closeness.annotate s.records }

def size (s : Store) : Nat :=
  s.records.length

def isEmpty (s : Store) : Bool :=
  s.records.isEmpty

end Store

end RunLog
