import RunLog.Decimal.Natural
import RunLog.Text.Quoted

/-!
# Why a run is dropped

A shortfall is what keeps a run from becoming a record; it does not know where
in the log it was noticed. A fault is what a reader of logs reports: a
shortfall at a line, a run that never ended, or a source that could not be read
to its end.
-/
namespace RunLog

inductive Shortfall where
  | badValue (field value : Text)
  | missing (field : Text)
  deriving DecidableEq, Repr

/-- What a reader of logs reports. -/
inductive Fault where
  | unreadable (reason : Text)
  | unfinished (started line : Nat)
  | badValue (line : Nat) (field value : Text)
  | missing (line : Nat) (field : Text)
  deriving DecidableEq, Repr

namespace Fault

/-- A shortfall noticed at a line. -/
def ofShortfall (line : Nat) : Shortfall → Fault
  | .badValue field value => .badValue line field value
  | .missing field => .missing line field

/-- Whether reading can go on with the next run. -/
def isRecoverable : Fault → Bool
  | .unreadable _ => false
  | _ => true

/-- The line at which the fault was noticed. -/
def line? : Fault → Option Nat
  | .unreadable _ => none
  | .unfinished _ line => some line
  | .badValue line _ _ => some line
  | .missing line _ => some line

/-- The fault in words. -/
def message : Fault → Text
  | .unreadable reason => "IO error: ".toList ++ reason
  | .unfinished started line =>
      "Incomplete run started at line ".toList ++ Decimal.natural started ++
        ": no terminator before line ".toList ++ Decimal.natural line
  | .badValue line field value =>
      "Invalid value for '".toList ++ field ++ "' at line ".toList ++ Decimal.natural line ++
        ": ".toList ++ Text.quoted value
  | .missing line field =>
      "Missing required field '".toList ++ field ++ "' for run ending at line ".toList ++
        Decimal.natural line

end Fault

end RunLog
