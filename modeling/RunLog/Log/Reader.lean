import RunLog.Log.Source
import RunLog.Marker
import RunLog.Run.Draft

/-!
# Reading a log line by line

A reader is idle until a line begins a run. It then collects what the markers
say until a line ends the run, which gives a record, or until something is
wrong, which drops the run. A run that is begun before the last one has ended
drops that one and begins its own. An `Inputs:` line opens a block of input
parameters; the block closes at a blank line, or at any other marker, which is
then read as usual. Lines that are no markers, overlong lines, and markers
outside a run pass unnoticed.

A reader keeps one draft and two line numbers for all runs of a log, one after
another; nothing but its phase says whether they belong to an open run.
-/
namespace RunLog

/-- What a line says, unless it takes more than `limit` octets. -/
def Line.marker? (limit : Nat) (line : Line) : Option Marker :=
  if limit < Utf8.size line.text then none else Marker.read line.text

/-- How far an open run has come. -/
inductive Phase where
  | fields
  | components
  deriving DecidableEq, Repr

structure Reader where
  /-- How far the open run has come; a reader without a phase is idle. -/
  phase : Option Phase
  draft : Draft
  started : Nat
  lastLine : Nat
  /-- Whether the block of input parameters is open. -/
  inInputs : Bool

structure OpenRun where
  started : Nat
  draft : Draft
  inInputs : Bool
  phase : Phase

/-- What a line can bring to light: a complete run, or the reason why one is dropped. -/
inductive Finding where
  | record (r : Record)
  | fault (f : Fault)

/-- The record of a finished draft, or the fault at the line that finished it. -/
def Finding.ofDraft (number : Nat) (d : Draft) : Finding :=
  match d.complete with
  | .ok r => .record r
  | .error e => .fault (.ofShortfall number e)

namespace Draft

/-- Reads a payload that has to convert. -/
def convert {α : Type} (field raw : Text) (read? : Text → Option α) : Except Shortfall α :=
  match read? raw with
  | some a => .ok a
  | none => .error (.badValue field raw)

def pairs (raw : Text) : Except Shortfall Metrics :=
  (Metrics.read raw).mapError fun fault => .badValue "summary".toList fault.pair

def componentName (metrics : Metrics) : Except Shortfall Text :=
  match metrics.get? "index".toList with
  | some name => .ok name.label
  | none => .error (.missing "index".toList)

/-- What a marker adds to a draft. -/
def note (d : Draft) : Marker → Except Shortfall Draft
  | .benchmark word => .ok { d with kind := some (Kind.ofWord word) }
  | .schema path => .ok { d with schemaFile := some path }
  | .indexType signature => .ok { d with variant := some (Variant.read signature) }
  | .implementation signature => .ok { d with variant := some (Variant.read signature) }
  | .threads raw => do
      let n ← convert "threads".toList raw (Decimal.readNatural? Decimal.wordLimit)
      .ok { d with threads := some n }
  | .throughput raw => do
      let x ← convert "throughput".toList raw Decimal.read?
      .ok { d with throughput := some x }
  | .component raw => do
      let metrics ← pairs raw
      let name ← componentName metrics
      .ok (d.withComponent name metrics)
  | .summary raw => do
      let metrics ← pairs raw
      .ok { d with summary := metrics }
  | .expectedSize raw => do
      let n ← convert "expected_final_size".toList raw (Decimal.readNatural? Decimal.sizeLimit)
      .ok { d with expectedFinalSize := some n }
  | .runStart => .ok d
  | .inputsStart => .ok d
  | .input _ _ => .ok d
  | .blank => .ok d

end Draft

namespace Reader

def start : Reader :=
  ⟨none, Draft.empty, 0, 0, false⟩

def run (reader : Reader) : Option OpenRun :=
  reader.phase.map fun phase => ⟨reader.started, reader.draft, reader.inInputs, phase⟩

/-- Gives up the run, or whatever is left of it. -/
def reset (reader : Reader) : Reader :=
  { reader with phase := none, draft := Draft.empty, inInputs := false }

/-- The fault of a run that is still open when line `number` is reached. -/
def unfinished? (reader : Reader) (number : Nat) : Option Fault :=
  reader.phase.map fun _ => .unfinished reader.started number

/-- Begins a run at line `number`; the micro benchmark opens with its input parameters. -/
def openRun (reader : Reader) (number : Nat) (m : Marker) : Reader :=
  { reader with
    phase := some .fields
    draft := { Draft.empty with kind := if m = .inputsStart then some .micro else none }
    started := number
    inInputs := m = .inputsStart }

def phaseAfter (phase : Option Phase) : Marker → Option Phase
  | .component _ => some .components
  | _ => phase

/-- Reads a marker outside the block of input parameters. -/
def takeField (reader : Reader) (m : Marker) : Except Shortfall Reader :=
  (reader.draft.note m).map fun d =>
    { reader with draft := d, inInputs := false, phase := phaseAfter reader.phase m }

/-- Reads a marker of the open run. -/
def take (reader : Reader) (m : Marker) : Except Shortfall Reader :=
  if reader.inInputs then
    match m with
    | .input key value => .ok { reader with draft := reader.draft.withInput key value }
    | .blank => .ok { reader with inInputs := false }
    | _ => reader.takeField m
  else reader.takeField m

def mark (reader : Reader) (number : Nat) (m : Marker) : Reader × Option Finding :=
  if m.startsRun then
    (reader.openRun number m, (reader.unfinished? number).map .fault)
  else if reader.phase = none then (reader, none)
  else
    match reader.take m with
    | .error e => (reader.reset, some (.fault (.ofShortfall number e)))
    | .ok taken =>
        if m.endsRun then (taken.reset, some (Finding.ofDraft number taken.draft))
        else (taken, none)

/-- Reads a line; lines of more than `limit` octets are passed over. -/
def step (limit : Nat) (reader : Reader) (line : Line) : Reader × Option Finding :=
  let reader := { reader with lastLine := line.number }
  match line.marker? limit with
  | none => (reader, none)
  | some m => reader.mark line.number m

/-- Ends the log; an open run is dropped. -/
def finish (reader : Reader) : Reader × Option Fault :=
  if reader.phase = none then (reader, none)
  else (reader.reset, reader.unfinished? reader.lastLine)

end Reader

end RunLog
