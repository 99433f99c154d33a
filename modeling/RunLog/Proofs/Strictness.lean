import RunLog.Proofs.LineCuts
import RunLog.Proofs.ReaderMoves

/-!
# Strict and lenient readings

A strict reading and a lenient one see the same findings. They differ in what
they make of the faults among them: a strict reading answers with the first, a
lenient one with all. A source that fails leaves a lenient reading with its
failure only, and so it does a strict reading that has met no fault before; no
finding comes from an unfinished line or from the end of the log.
-/
namespace RunLog.Outcome

/-- The answer of a strict reading: the first of the faults, or else what there is
without one. -/
def firstFault {α : Type} (faults : List Fault) (otherwise : Except Fault α) :
    Except Fault α :=
  match faults with
  | [] => otherwise
  | f :: _ => .error f

theorem conclude_strict (failure : Option Text) (all : List Finding) :
    conclude true failure all =
      firstFault (all.filterMap fault?) (conclude false failure all) := by
  simp only [conclude, if_true, ← List.head?_filterMap]
  cases all.filterMap fault? with
  | nil => cases failure <;> rfl
  | cons f rest => rfl

theorem map_firstFault {α β : Type} (g : α → β) (faults : List Fault)
    (otherwise : Except Fault α) :
    (firstFault faults otherwise).map g = firstFault faults (otherwise.map g) := by
  cases faults <;> rfl

/-- If a source does not fail, a strict reading of it ends with the first of the faults that
a lenient one keeps, and agrees with it if there are none. If a source fails, a lenient
reading has only the failure; a strict one has the first fault of the lines that were
delivered with their ending, or else the failure as well. A failure behind a buffer without
room is met by neither. -/
theorem strict_agrees (options : Options) (octets : Octets) (reason : Text) :
    let strict := { options with strict := true }
    let lenient := { options with strict := false }
    let lines := (Source.ofOctets (Source.delivered octets)).lines
    (∃ outcome, ofSource lenient (.ofOctets octets) = .ok outcome ∧
      ofSource strict (.ofOctets octets) = firstFault outcome.faults (.ok outcome)) ∧
    (0 < options.bufferSize →
      ofSource lenient ⟨octets, some reason⟩ = .error (.unreadable reason) ∧
      ofSource strict ⟨octets, some reason⟩ =
        firstFault ((Reader.start.readAll options.maxLineLength lines).2.filterMap fault?)
          (.error (.unreadable reason))) ∧
    (options.bufferSize = 0 →
      ofSource strict ⟨octets, some reason⟩ = ofSource lenient ⟨octets, some reason⟩) := by
  intro strict lenient lines
  refine ⟨⟨_, ofSource_lenient options octets, ?_⟩, fun room => ⟨?_, ?_⟩, fun none => ?_⟩
  · rw [ofSource_eq, Source.failure_buffered, conclude_strict, map_firstFault]
    rfl
  · rw [ofSource_eq, Source.buffered_of_pos room]
    rfl
  · rw [ofSource_eq, Source.buffered_of_pos room, conclude_strict, map_firstFault,
      Source.lines_of_failure]
    rfl
  · rw [ofSource_roomless strict none, ofSource_roomless lenient none]

/-- A log that fails in its third line, behind a run that the second line interrupts. -/
def brokenOffLog : Source :=
  ⟨Utf8.encode "Inputs:\nInputs:\nds_na".toList, some "connection reset".toList⟩

theorem strict_agrees_brokenOffLog :
    0 < Options.standard.bufferSize ∧
      ofSource .standard brokenOffLog = .error (.unreadable "connection reset".toList) ∧
      ofSource { Options.standard with strict := true } brokenOffLog =
        .error (.unfinished 1 2) := by
  have room : 0 < Options.standard.bufferSize := by decide
  have met : (Reader.start.readAll Options.standard.maxLineLength
      (Source.ofOctets (Source.delivered brokenOffLog.octets)).lines).2.filterMap fault? =
        [.unfinished 1 2] := by decide +kernel
  obtain ⟨lenient, strict⟩ :=
    (strict_agrees .standard brokenOffLog.octets "connection reset".toList).2.1 room
  rw [met] at strict
  exact ⟨room, lenient, strict⟩

end RunLog.Outcome
