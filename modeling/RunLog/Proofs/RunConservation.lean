import RunLog.Proofs.ReaderMoves

/-!
# Every run ends once

A line can begin a run, and the same line can drop the run before it. Findings
are therefore attributed to the line that began the run they end. One step
keeps the balance `step_balance`: the run that was open and the run that begins
are the run that ends and the run that stays open. Over a whole log, the lines
that begin a run and the findings are in bijection, in the order of the log, as
long as the log passes its buffer.
-/
namespace RunLog.Reader

/-- The line that began the open run, if there is one. -/
def openStart (reader : Reader) : List Nat :=
  (reader.run.map OpenRun.started).toList

theorem openStart_of_phase {reader : Reader} (h : reader.phase ≠ none) :
    reader.openStart = [reader.started] := by
  obtain ⟨phase, hp⟩ := Option.ne_none_iff_exists'.mp h
  simp [openStart, run, hp]

@[simp] theorem openStart_start : start.openStart = [] := rfl
@[simp] theorem openStart_reset (reader : Reader) : reader.reset.openStart = [] := rfl

/-- The findings of lines and of the end of the log, each with the line that began its run. -/
def endings (limit : Nat) : Reader → List Line → List (Nat × Finding)
  | reader, [] => reader.leftOver.map (reader.started, ·)
  | reader, line :: rest =>
      (reader.step limit line).2.toList.map (reader.started, ·) ++
        endings limit (reader.step limit line).1 rest

theorem endings_findings (limit : Nat) (reader : Reader) (lines : List Line) :
    (endings limit reader lines).map Prod.snd = reader.harvest limit lines := by
  induction lines generalizing reader with
  | nil => simp [endings, Function.comp_def]
  | cons line rest ih => simp [endings, harvest_cons, ih, Function.comp_def]

/-- What was open and what begins is what ends and what stays open. -/
theorem step_balance (limit : Nat) (reader : Reader) (line : Line) :
    reader.openStart ++ (if line.beginsRun limit then [line.number] else []) =
      (reader.step limit line).2.toList.map (fun _ => reader.started) ++
        (reader.step limit line).1.openStart := by
  have h := step_move limit reader line
  generalize reader.step limit line = s at h ⊢
  cases h with
  | passed hm => simp [Line.beginsRun, hm, openStart]
  | begun hm hs =>
      simp only [Line.beginsRun, hm, Option.any_some, hs, if_true]
      cases hp : reader.phase <;> simp [openStart, run, unfinished?, openRun, hp]
  | outside hm hs hp => simp [Line.beginsRun, hm, hs, openStart]
  | dropped hm hs hp ht =>
      simp [Line.beginsRun, hm, hs, openStart_of_phase hp]
  | ended hm hs hp ht he =>
      simp [Line.beginsRun, hm, hs, openStart_of_phase hp]
  | collected hm hs hp ht he =>
      obtain ⟨started, -, stays⟩ := take_ok ht
      rw [openStart_of_phase hp, openStart_of_phase (stays hp), started]
      simp [Line.beginsRun, hm, hs]

theorem endings_starts (limit : Nat) (reader : Reader) (lines : List Line) :
    (endings limit reader lines).map Prod.fst =
      reader.openStart ++ (lines.filter (Line.beginsRun limit)).map Line.number := by
  induction lines generalizing reader with
  | nil =>
      rw [endings, leftOver_eq, unfinished?]
      cases hp : reader.phase <;> simp [openStart, run, hp]
  | cons line rest ih =>
      have balance := step_balance limit reader line
      simp only [endings, List.map_append, List.map_map, ih, Function.comp_def]
      rw [← List.append_assoc, ← balance, List.append_assoc, List.filter_cons]
      split <;> rfl

theorem length_harvest (limit : Nat) (lines : List Line) :
    (start.harvest limit lines).length = (lines.filter (Line.beginsRun limit)).length := by
  have begun := congrArg List.length (endings_starts limit start lines)
  have found := congrArg List.length (endings_findings limit start lines)
  simp only [List.length_map, openStart_start, List.nil_append] at begun found
  exact found.symm.trans begun

end RunLog.Reader

namespace RunLog.Outcome

/-- Behind a buffer with room, every line that begins a run accounts for exactly one record or
fault, and every record or fault is accounted for by such a line, in the order of the log.
Behind one without room no line is read, and the log passes for an empty one. -/
theorem every_run_ends_once (options : Options) (octets : Octets) :
    let limit := options.maxLineLength
    let lines := (Source.ofOctets octets).lines
    let starts := lines.filter (Line.beginsRun limit)
    let ended := Reader.start.endings limit lines
    ∃ outcome,
      ofSource { options with strict := false } (.ofOctets octets) = .ok outcome ∧
      (0 < options.bufferSize →
        outcome.records.length + outcome.faults.length = starts.length ∧
        ended.map Prod.fst = starts.map Line.number ∧
        outcome.records = (ended.map Prod.snd).filterMap record? ∧
        outcome.faults = (ended.map Prod.snd).filterMap fault?) ∧
      (options.bufferSize = 0 → outcome = ⟨[], [], 0⟩) := by
  intro limit lines starts ended
  have hstarts : ended.map Prod.fst = starts.map Line.number := by
    rw [Reader.endings_starts, Reader.openStart_start, List.nil_append]
  have hfound : ended.map Prod.snd = Reader.start.harvest limit lines :=
    Reader.endings_findings limit Reader.start lines
  refine ⟨_, ofSource_lenient options octets, fun room => ?_, fun none => ?_⟩
  · rw [Source.buffered_of_pos room]
    refine ⟨?_, hstarts, ?_, ?_⟩
    · rw [ofFindings, length_records_add_faults, Reader.length_harvest]
    · rw [hfound]
      rfl
    · rw [hfound]
      rfl
  · have unread : ofSource { options with strict := false } (.ofOctets octets) =
        .ok ⟨[], [], 0⟩ := ofSource_roomless { options with strict := false } none _
    rw [ofSource_lenient] at unread
    exact Except.ok.inj unread

/-- Two runs, of which the second one interrupts the first and is complete. -/
def interruptedLog : Text :=
  ("Inputs:\nmem_allocator initialized!\nRunning YCSB workload\nRBT implementation treap\n" ++
    "running 2 threads\n[summary] throughput=1.5\n").toList

theorem every_run_ends_once_interrupted :
    0 < Options.standard.bufferSize ∧
      ∃ outcome, ofSource .standard (.ofText interruptedLog) = .ok outcome ∧
        outcome.records.length + outcome.faults.length = 2 := by
  have starts : ((Source.ofText interruptedLog).lines.filter
      (Line.beginsRun Options.standard.maxLineLength)).length = 2 := by decide +kernel
  obtain ⟨outcome, read, balance, -⟩ :=
    every_run_ends_once .standard (Utf8.encode interruptedLog)
  exact ⟨by decide, outcome, read, (balance (by decide)).1.trans starts⟩

/-- Without room in the buffer, the same log is read to its end, and neither of its runs is
heard of. -/
theorem interrupted_unread :
    let options := { Options.standard with bufferSize := 0 }
    let source := Source.ofText interruptedLog
    ofSource options source = .ok ⟨[], [], 0⟩ ∧
      (source.lines.filter (Line.beginsRun options.maxLineLength)).length = 2 := by
  intro options source
  exact ⟨ofSource_roomless options rfl source, by decide +kernel⟩

end RunLog.Outcome
