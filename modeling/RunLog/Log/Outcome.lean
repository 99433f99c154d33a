import RunLog.Log.Reader

/-!
# Reading a whole log

A lenient reading keeps every fault and goes on; a strict reading ends with the
first one. A source that fails ends either reading with that failure, after the
lines it has delivered. What is read is what passes the buffer: nothing at all, if
that has no room.
-/
namespace RunLog

structure Options where
  /-- Lines of more octets are passed over. -/
  maxLineLength : Nat
  bufferSize : Nat
  strict : Bool
  deriving DecidableEq, Repr

/-- Lenient, with lines of up to a million octets. -/
def Options.standard : Options :=
  ⟨1000000, 65536, false⟩

/-- What a reading brings to light, in the order of the log. -/
structure Outcome where
  records : List Record
  faults : List Fault
  lines : Nat

namespace Outcome

def record? : Finding → Option Record
  | .record r => some r
  | .fault _ => none

def fault? : Finding → Option Fault
  | .record _ => none
  | .fault f => some f

/-- The end of a log: the failure of its source, or what an open run leaves behind. -/
def ending (options : Options) (failure : Option Text) (reader : Reader) :
    Except Fault (List Finding) :=
  match failure with
  | some reason => .error (.unreadable reason)
  | none =>
      match reader.finish.2 with
      | none => .ok []
      | some f => if options.strict then .error f else .ok [.fault f]

/-- The findings of the lines and of the end of the log. -/
def findings (options : Options) (failure : Option Text) (reader : Reader) :
    List Line → Except Fault (List Finding)
  | [] => ending options failure reader
  | line :: rest =>
      match reader.step options.maxLineLength line with
      | (reader, none) => findings options failure reader rest
      | (reader, some (.record r)) =>
          (findings options failure reader rest).map (.record r :: ·)
      | (reader, some (.fault f)) =>
          if options.strict then .error f
          else (findings options failure reader rest).map (.fault f :: ·)

def ofSource (options : Options) (source : Source) : Except Fault Outcome :=
  let read := source.buffered options.bufferSize
  (findings options read.failure Reader.start read.lines).map fun found =>
    ⟨found.filterMap record?, found.filterMap fault?, read.lines.length⟩

theorem ofSource_of_pos {options : Options} (room : 0 < options.bufferSize) (source : Source) :
    ofSource options source =
      (findings options source.failure Reader.start source.lines).map fun found =>
        ⟨found.filterMap record?, found.filterMap fault?, source.lines.length⟩ := by
  rw [ofSource, source.buffered_of_pos room]

theorem ofSource_congr {source other : Source} (lines : source.lines = other.lines)
    (failure : source.failure = other.failure) (options : Options) :
    ofSource options source = ofSource options other := by
  unfold ofSource
  cases options.bufferSize with
  | zero => rfl
  | succ _ => simp only [Source.buffered, lines, failure]

end Outcome

end RunLog
