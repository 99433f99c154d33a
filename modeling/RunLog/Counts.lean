import RunLog.Groups
import RunLog.Store

/-!
# Counts of runs

How many runs a store holds for each kind, variant and thread count, and how
many were dropped.
-/
namespace RunLog

structure Counts where
  sources : Nat
  runs : Nat
  dropped : Nat
  perKind : List (Text × Nat)
  perVariant : List (Text × Nat)
  perThreads : List (Nat × Nat)

def Counts.ofStore (s : Store) : Counts :=
  { sources := s.sources
    runs := s.size
    dropped := s.diagnostics.length
    perKind :=
      (Groups.ofList Record.kind s.records).entries.map fun (kind, runs) =>
        (kind.name, runs.length)
    perVariant :=
      (Groups.ofList Record.variant s.records).sorted.map fun (variant, runs) =>
        (variant.label, runs.length)
    perThreads :=
      (Groups.ofList Record.threads s.records).sorted.map fun (threads, runs) =>
        (threads, runs.length) }

end RunLog
