import RunLog.Decimal.Layout
import RunLog.Decimal.Reading
import RunLog.Dictionary
import RunLog.Text.Quoted

/-!
# Metrics

A summary line of a log holds pairs `key=value`, separated by commas. A value
that reads as a double is a number, every other value is kept as text. Of
several pairs with one key the last one counts.
-/
namespace RunLog

inductive Metric where
  | number (x : Float)
  | text (t : Text)
  deriving Repr

namespace Metric

/-- Reads a value; blanks around it do not matter. -/
def read (raw : Text) : Metric :=
  match Decimal.read? (Text.trim raw) with
  | some x => .number x
  | none => .text (Text.trim raw)

/-- The value as a name or a label shows it. -/
def label : Metric → Text
  | .number x => Decimal.plain x
  | .text t => t

def number? : Metric → Option Float
  | .number x => some x
  | .text _ => none

def text? : Metric → Option Text
  | .number _ => none
  | .text t => some t

end Metric

/-- The pairs of a summary line. -/
abbrev Metrics := Dictionary Metric

structure PairFault where
  pair : Text
  deriving DecidableEq, Repr

/-- What is wrong with the pair. -/
def PairFault.message (fault : PairFault) : Text :=
  "expected key=value, got ".toList ++ Text.quoted fault.pair

namespace Metrics

/-- Reads one piece between commas into the pairs before it; a blank piece is skipped. -/
def readPair (metrics : Metrics) (piece : Text) : Except PairFault Metrics :=
  let pair := Text.trim piece
  if pair.isEmpty then .ok metrics
  else
    match Text.cut? '=' pair with
    | none => .error ⟨pair⟩
    | some (key, value) => .ok (metrics.insert (Text.trim key) (Metric.read value))

/-- Reads the pairs of a summary; the first piece that is no pair is at fault. -/
def read (t : Text) : Except PairFault Metrics :=
  (Text.pieces ',' t).foldlM readPair Dictionary.empty

end Metrics

end RunLog
