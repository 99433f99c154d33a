import RunLog.Text.Search

/-!
# Marker lines

A log is mostly chatter. A marker is a line that says something about a run;
it is told by its opening, and a line with a known opening that lacks its
payload is chatter. A line `key: value` with a plain word as key is an input
parameter. Payloads are kept as texts: what they mean is decided where a run is
put together.
-/
namespace RunLog

inductive Marker where
  | runStart
  | inputsStart
  | benchmark (word : Text)
  | schema (path : Text)
  | indexType (signature : Text)
  | implementation (signature : Text)
  | threads (count : Text)
  | component (pairs : Text)
  | summary (pairs : Text)
  | input (key value : Text)
  | throughput (rate : Text)
  | expectedSize (size : Text)
  | blank
  deriving DecidableEq, Repr

namespace Marker

def startsRun : Marker → Bool
  | .runStart => true
  | .inputsStart => true
  | _ => false

def endsRun : Marker → Bool
  | .summary _ => true
  | .expectedSize _ => true
  | _ => false

/-- The signature behind `type: `, less one closing bracket at the end. -/
def signature? (line : Text) : Option Text :=
  match Text.afterFirst? "type: ".toList line with
  | none => none
  | some rest =>
      let rest := Text.trimEnd rest
      let signature :=
        Text.trim (if rest.getLast? = some ']' then rest.dropLast else rest)
      if signature.isEmpty then none else some signature

/-- The characters of a parameter's key: ASCII letters, digits and the underscore. -/
def isKeyChar (c : Char) : Bool :=
  c.isAlphanum || c == '_'

def input? (line : Text) : Option Marker :=
  match Text.cut? ':' line with
  | none => none
  | some (key, value) =>
      let key := Text.trim key
      if !key.isEmpty && key.all isKeyChar then some (.input key (Text.trim value)) else none

/-- The marker of a trimmed line that is not empty. -/
def ofTrimmed? (line : Text) : Option Marker :=
  if Text.startsWith "mem_allocator initialized!".toList line then some .runStart
  else if Text.startsWith "Inputs:".toList line then some .inputsStart
  else if Text.startsWith "Running ".toList line then (Text.word? 1 line).map .benchmark
  else if Text.startsWith "Reading schema file:".toList line then
    (Text.word? 3 line).map .schema
  else if Text.startsWith "Initiating Map".toList line then (signature? line).map .indexType
  else if Text.startsWith "[ type: ".toList line then (signature? line).map .indexType
  else if Text.startsWith "RBT implementation".toList line then
    (Text.word? 2 line).map .implementation
  else if Text.startsWith "running ".toList line then (Text.word? 1 line).map .threads
  else
    match Text.after? "Per-index stats:".toList line with
    | some rest => some (.component (Text.trim rest))
    | none =>
        match Text.after? "[summary]".toList line with
        | some rest => some (.summary (Text.trim rest))
        | none =>
            if Text.startsWith "Throughput(Ops/usec):".toList line then
              (Text.word? 1 line).map .throughput
            else if Text.startsWith "Expected size of MAP".toList line ||
                Text.startsWith "Expected size of RBT".toList line then
              (Text.word? 4 line).map .expectedSize
            else input? line

/-- The marker on a line, if there is one; blanks around it do not matter. -/
def read (line : Text) : Option Marker :=
  let line := Text.trim line
  if line.isEmpty then some .blank else ofTrimmed? line

end Marker

end RunLog
