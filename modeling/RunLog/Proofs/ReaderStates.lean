import RunLog.Proofs.MarkerReadings
import RunLog.Proofs.ReaderMoves

/-!
# The states of a reader

A reader can be asked to read a line or to end the log, any number of times and
in any order. What it has been asked and what it has answered tell, without a
look inside, whether a run is open and where it began (`Call.opened`): a line
that begins a run opens one, any other answer and the end of the log close it.
The phase, the draft, the line numbers and the block flag of a reader agree with
that at all times (`Coherent`), whatever it was asked before.

The numbers of the lines need not follow each other. They start from one, and
none is less than the one before.
-/
namespace RunLog.Reader

inductive Call where
  | feed (line : Line)
  | finish

def answer (limit : Nat) (reader : Reader) : Call → Reader × Option Finding
  | .feed line => reader.step limit line
  | .finish => (reader.finish.1, reader.finish.2.map .fault)

/-- Answers calls one after another: the reader behind them, and each call with its answer. -/
def answerAll (limit : Nat) : Reader → List Call → Reader × List (Call × Option Finding)
  | reader, [] => (reader, [])
  | reader, call :: rest =>
      let next := reader.answer limit call
      let last := answerAll limit next.1 rest
      (last.1, (call, next.2) :: last.2)

namespace Call

def numbers : List Call → List Nat
  | [] => []
  | .feed line :: rest => line.number :: numbers rest
  | .finish :: rest => numbers rest

structure Ascending (calls : List Call) : Prop where
  first : ∀ number ∈ numbers calls, 1 ≤ number
  later : (numbers calls).Pairwise (· ≤ ·)

/-- The line that began the open run, behind one more call and its answer. -/
def openedBehind (limit : Nat) (opened : Option Nat) : Call × Option Finding → Option Nat
  | (.feed line, found) =>
      if line.beginsRun limit then some line.number
      else if found.isSome then none
      else opened
  | (.finish, _) => none

/-- The line that began the open run, if there is one, told by the calls and their answers. -/
def opened (limit : Nat) (history : List (Call × Option Finding)) : Option Nat :=
  history.foldl (openedBehind limit) none

end Call

structure Coherent (reader : Reader) (opened : Option Nat) : Prop where
  idle : reader.phase = none ↔ opened = none
  empty : reader.phase = none → reader.draft = Draft.empty ∧ reader.inInputs = false
  inputs : reader.inInputs = true → reader.phase = some .fields ∧
    reader.draft = { Draft.empty with kind := some .micro, inputs := reader.draft.inputs }
  components : reader.phase = some .components ↔
    opened ≠ none ∧ ∃ name metrics, reader.draft.components.get? name = some metrics
  numbers : ∀ number ∈ opened,
    reader.started = number ∧ 1 ≤ number ∧ number ≤ reader.lastLine

namespace Coherent

variable {limit : Nat} {reader : Reader} {opened : Option Nat}

theorem ofIdle (hphase : reader.phase = none) (hdraft : reader.draft = Draft.empty)
    (hinputs : reader.inInputs = false) : reader.Coherent none where
  idle := by simp [hphase]
  empty _ := ⟨hdraft, hinputs⟩
  inputs h := by simp [hinputs] at h
  components := by simp [hphase]
  numbers := by simp

theorem pass (h : reader.Coherent opened) {line : Line} (later : reader.lastLine ≤ line.number) :
    (reader.pass line).Coherent opened where
  idle := h.idle
  empty := h.empty
  inputs := h.inputs
  components := h.components
  numbers := by
    intro number hnumber
    obtain ⟨hstarted, hfirst, hlast⟩ := h.numbers number hnumber
    exact ⟨hstarted, hfirst, Nat.le_trans hlast later⟩

theorem openRun (reader : Reader) {number : Nat} (first : 1 ≤ number)
    (later : number ≤ reader.lastLine) (m : Marker) :
    (reader.openRun number m).Coherent (some number) where
  idle := by simp [Reader.openRun]
  empty h := by cases h
  inputs := by
    intro h
    have opening : m = .inputsStart := of_decide_eq_true h
    exact ⟨rfl, by simp [Reader.openRun, opening]⟩
  components := by
    have bare : ∀ name, Draft.empty.components.get? name = none := fun _ => rfl
    simp [Reader.openRun, bare]
  numbers := by
    intro other h
    obtain rfl := Option.some.inj h
    exact ⟨rfl, first, later⟩

theorem phaseAfter_iff {d after : Draft} {m : Marker} {phase : Option Phase}
    (hn : d.note m = .ok after)
    (h : phase = some .components ↔ ∃ name metrics, d.components.get? name = some metrics) :
    phaseAfter phase m = some .components ↔
      ∃ name metrics, after.components.get? name = some metrics := by
  obtain ⟨hdefect, noted⟩ := Draft.note_ok hn
  have kept : m.component? = none → after.components = d.components := by
    intro silent
    rw [noted.components, silent]
    rfl
  cases m with
  | component raw =>
      obtain ⟨named, hnamed⟩ := Marker.component?_of_defect hdefect
      have added : after.components.get? named.1 = some named.2 := by
        rw [noted.components, hnamed]
        simp
      exact ⟨fun _ => ⟨named.1, named.2, added⟩, fun _ => rfl⟩
  | _ =>
      rw [kept rfl]
      exact h

/-- A marker that the open run keeps leaves the run open, and closes the block unless it is a
parameter. -/
theorem taken (h : reader.Coherent opened) (hopen : reader.phase ≠ none) {m : Marker}
    {taken : Reader} (ht : reader.take m = .ok taken) : taken.Coherent opened := by
  have isOpen : opened ≠ none := fun hnone => hopen (h.idle.mpr hnone)
  have stays := (take_ok ht).2.2 hopen
  have idle : taken.phase = none ↔ opened = none :=
    ⟨fun hphase => absurd hphase stays, fun hnone => absurd hnone isOpen⟩
  have empty : taken.phase = none → taken.draft = Draft.empty ∧ taken.inInputs = false :=
    fun hphase => absurd hphase stays
  cases take_taken ht with
  | parameter hblock =>
      obtain ⟨hphase, hdraft⟩ := h.inputs hblock
      refine ⟨idle, empty, fun _ => ⟨hphase, ?_⟩, h.components, h.numbers⟩
      simp only
      rw [hdraft]
      rfl
  | closed => exact ⟨idle, empty, fun hf => Bool.noConfusion hf, h.components, h.numbers⟩
  | @noted _ d hn =>
      have before : reader.phase = some .components ↔
          ∃ name metrics, reader.draft.components.get? name = some metrics := by
        rw [h.components, and_iff_right isOpen]
      refine ⟨idle, empty, fun hf => Bool.noConfusion hf, ?_, h.numbers⟩
      rw [and_iff_right isOpen]
      exact phaseAfter_iff hn before

/-- One line keeps a reader coherent with what it was asked and what it answered. -/
theorem step (h : reader.Coherent opened) {line : Line} (first : 1 ≤ line.number)
    (later : reader.lastLine ≤ line.number) :
    (reader.step limit line).1.Coherent
      (Call.openedBehind limit opened (.feed line, (reader.step limit line).2)) := by
  have passed := h.pass later
  have move := step_move limit reader line
  generalize reader.step limit line = s at move ⊢
  cases move with
  | passed hm => simpa [Call.openedBehind, Line.beginsRun, hm] using passed
  | begun hm hs =>
      simpa [Call.openedBehind, Line.beginsRun, hm, hs] using
        openRun (reader.pass line) first (Nat.le_refl _) _
  | outside hm hs => simpa [Call.openedBehind, Line.beginsRun, hm, hs] using passed
  | dropped hm hs =>
      simpa [Call.openedBehind, Line.beginsRun, hm, hs] using ofIdle (reset_phase _) rfl rfl
  | ended hm hs =>
      simpa [Call.openedBehind, Line.beginsRun, hm, hs] using ofIdle (reset_phase _) rfl rfl
  | collected hm hs hopen ht =>
      simpa [Call.openedBehind, Line.beginsRun, hm, hs] using passed.taken hopen ht

theorem finish (h : reader.Coherent opened) : reader.finish.1.Coherent none := by
  unfold Reader.finish
  split
  · rename_i hphase
    obtain ⟨hdraft, hinputs⟩ := h.empty hphase
    exact ofIdle hphase hdraft hinputs
  · exact ofIdle (reset_phase _) rfl rfl

theorem answerAll {calls : List Call} (h : reader.Coherent opened) (ascending : Call.Ascending calls)
    (ahead : ∀ number ∈ Call.numbers calls, reader.lastLine ≤ number) :
    (answerAll limit reader calls).1.Coherent
      ((answerAll limit reader calls).2.foldl (Call.openedBehind limit) opened) := by
  induction calls generalizing reader opened with
  | nil => exact h
  | cons call rest ih =>
      obtain ⟨first, later⟩ := ascending
      cases call with
      | feed line =>
          rw [Call.numbers, List.forall_mem_cons] at first ahead
          rw [Call.numbers, List.pairwise_cons] at later
          refine ih (h.step first.1 ahead.1) ⟨first.2, later.2⟩ ?_
          rw [answer, step_lastLine]
          exact later.1
      | finish =>
          have lastLine : reader.finish.1.lastLine = reader.lastLine := by
            unfold Reader.finish
            split <;> rfl
          refine ih h.finish ⟨first, later⟩ ?_
          rw [answer, lastLine]
          exact ahead

end Coherent

/-- The end of a log leaves an idle reader, which has nothing to report a second time. -/
theorem finish_idle (reader : Reader) :
    reader.finish.1.phase = none ∧ reader.finish.1.finish.2 = none := by
  have idle : reader.finish.1.phase = none := by
    unfold finish
    split
    · assumption
    · rfl
  refine ⟨idle, ?_⟩
  rw [finish, if_pos idle]

/-- A fault leaves an idle reader, unless the line that tells of it begins the next run. -/
theorem step_fault {limit : Nat} {reader : Reader} {line : Line} {f : Fault}
    (h : (reader.step limit line).2 = some (.fault f)) :
    if line.beginsRun limit then (reader.step limit line).1.phase = some .fields ∧
        (reader.step limit line).1.started = line.number
    else (reader.step limit line).1.phase = none := by
  have move := step_move limit reader line
  generalize reader.step limit line = s at move h ⊢
  cases move with
  | passed | outside | collected => cases h
  | begun hm hs =>
      rw [if_pos (Line.beginsRun_iff.mpr ⟨_, hm, hs⟩)]
      exact ⟨rfl, rfl⟩
  | dropped hm hs | ended hm hs =>
      have running : line.beginsRun limit = false := by simp [Line.beginsRun, hm, hs]
      simp [running]

/-- Whatever a reader was asked, it is coherent with what it was asked and what it answered.
The next line that tells of a fault, and the end of the log, leave it idle, unless that line
begins a run itself; and the log ends once. -/
theorem always_coherent (limit : Nat) (calls : List Call) (ascending : Call.Ascending calls) :
    let reader := (start.answerAll limit calls).1
    reader.Coherent (Call.opened limit (start.answerAll limit calls).2) ∧
      (∀ line f, (reader.step limit line).2 = some (.fault f) →
        if line.beginsRun limit then (reader.step limit line).1.phase = some .fields ∧
            (reader.step limit line).1.started = line.number
        else (reader.step limit line).1.phase = none) ∧
      reader.finish.1.phase = none ∧ reader.finish.1.finish.2 = none := by
  intro reader
  have fresh : start.Coherent none := .ofIdle rfl rfl rfl
  have ahead : ∀ number ∈ Call.numbers calls, start.lastLine ≤ number :=
    fun number _ => Nat.zero_le number
  exact ⟨fresh.answerAll ascending ahead, fun line f => step_fault, finish_idle reader⟩

/-- A run with a component is interrupted at its own last line, by one whose block of parameters
is still open. -/
theorem always_coherent_interrupted :
    let calls : List Call :=
      [.feed ⟨1, "mem_allocator initialized!".toList⟩, .feed ⟨3, "Per-index stats: index=A".toList⟩,
        .feed ⟨3, "Inputs:".toList⟩, .feed ⟨8, "num_threads: 4".toList⟩]
    let reader := (start.answerAll 64 calls).1
    let next := reader.step 64 ⟨9, "running many threads".toList⟩
    Call.Ascending calls ∧ reader.Coherent (some 3) ∧ reader.inInputs = true ∧
      next.2 = some (.fault (.badValue 9 "threads".toList "many".toList)) ∧
      next.1.phase = none ∧ reader.finish.1.phase = none ∧ reader.finish.1.finish.2 = none := by
  intro calls reader next
  have ascending : Call.Ascending calls := ⟨by decide, by decide⟩
  obtain ⟨coherent, fault, finished⟩ := always_coherent 64 calls ascending
  have opened : Call.opened 64 (start.answerAll 64 calls).2 = some 3 := by rfl
  have found : next.2 = some (.fault (.badValue 9 "threads".toList "many".toList)) := by rfl
  rw [opened] at coherent
  have idle := fault _ _ found
  exact ⟨ascending, coherent, by rfl, found, idle, finished⟩

end RunLog.Reader
