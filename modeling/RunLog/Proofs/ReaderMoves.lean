import Mathlib.Tactic.SplitIfs
import RunLog.Log.Outcome
import RunLog.Proofs.LineCuts

/-!
# What a line does to a reader

One line can do six things to a reader, and `Move` lists them with their
guards. Everything said about a log is derived from that list, one case for
each entry; no other module looks into a step.

The reader of a whole log is the reader behind all of its lines, with the
findings of the lines in order. `harvest` adds what the end of the log brings
to light. A reading of a source is these findings, cut short by its first fault
or by the failure of its source (`findings_eq`).
-/
namespace RunLog

/-- Whether the line begins a run, unless it takes more than `limit` octets. -/
def Line.beginsRun (limit : Nat) (line : Line) : Bool :=
  (line.marker? limit).any Marker.startsRun

theorem Line.beginsRun_iff {limit : Nat} {line : Line} :
    line.beginsRun limit = true ↔ ∃ m, line.marker? limit = some m ∧ m.startsRun = true := by
  unfold beginsRun
  cases line.marker? limit <;> simp

namespace Reader

/-- The reader that has taken notice of a line's number, and of nothing else. -/
def pass (reader : Reader) (line : Line) : Reader :=
  { reader with lastLine := line.number }

@[simp] theorem pass_phase (reader : Reader) (line : Line) :
    (reader.pass line).phase = reader.phase := rfl
@[simp] theorem pass_draft (reader : Reader) (line : Line) :
    (reader.pass line).draft = reader.draft := rfl
@[simp] theorem pass_started (reader : Reader) (line : Line) :
    (reader.pass line).started = reader.started := rfl
@[simp] theorem pass_inInputs (reader : Reader) (line : Line) :
    (reader.pass line).inInputs = reader.inInputs := rfl
@[simp] theorem pass_lastLine (reader : Reader) (line : Line) :
    (reader.pass line).lastLine = line.number := rfl
@[simp] theorem pass_run (reader : Reader) (line : Line) :
    (reader.pass line).run = reader.run := rfl
@[simp] theorem pass_unfinished? (reader : Reader) (line : Line) (number : Nat) :
    (reader.pass line).unfinished? number = reader.unfinished? number := rfl

@[simp] theorem reset_phase (reader : Reader) : reader.reset.phase = none := rfl
@[simp] theorem reset_lastLine (reader : Reader) :
    reader.reset.lastLine = reader.lastLine := rfl

theorem step_eq (limit : Nat) (reader : Reader) (line : Line) :
    reader.step limit line =
      match line.marker? limit with
      | none => (reader.pass line, none)
      | some m => (reader.pass line).mark line.number m := rfl

/-- What one line can do to a reader, and what it brings to light. -/
inductive Move (limit : Nat) (reader : Reader) (line : Line) : Reader × Option Finding → Prop
  /-- An overlong line, or a line that is no marker. -/
  | passed : line.marker? limit = none → Move limit reader line (reader.pass line, none)
  /-- A line that begins a run, and drops the one that is open. -/
  | begun {m : Marker} : line.marker? limit = some m → m.startsRun = true →
      Move limit reader line ((reader.pass line).openRun line.number m,
        (reader.unfinished? line.number).map .fault)
  | outside {m : Marker} : line.marker? limit = some m → m.startsRun = false →
      reader.phase = none → Move limit reader line (reader.pass line, none)
  | dropped {m : Marker} {e : Shortfall} : line.marker? limit = some m →
      m.startsRun = false → reader.phase ≠ none → (reader.pass line).take m = .error e →
      Move limit reader line
        ((reader.pass line).reset, some (.fault (.ofShortfall line.number e)))
  | ended {m : Marker} {taken : Reader} : line.marker? limit = some m →
      m.startsRun = false → reader.phase ≠ none → (reader.pass line).take m = .ok taken →
      m.endsRun = true →
      Move limit reader line (taken.reset, some (Finding.ofDraft line.number taken.draft))
  | collected {m : Marker} {taken : Reader} : line.marker? limit = some m →
      m.startsRun = false → reader.phase ≠ none → (reader.pass line).take m = .ok taken →
      m.endsRun = false → Move limit reader line (taken, none)

theorem step_move (limit : Nat) (reader : Reader) (line : Line) :
    Move limit reader line (reader.step limit line) := by
  rw [step_eq]
  cases hm : line.marker? limit with
  | none => exact .passed hm
  | some m =>
      by_cases hs : m.startsRun = true
      · simpa only [mark, hs, if_true, pass_unfinished?] using Move.begun hm hs
      · rw [Bool.not_eq_true] at hs
        by_cases hp : reader.phase = none
        · simpa [mark, hs, hp] using Move.outside hm hs hp
        · simp only [mark, hs, pass_phase, hp, if_false, Bool.false_eq_true]
          cases ht : (reader.pass line).take m with
          | error e => exact .dropped hm hs hp ht
          | ok taken =>
              cases he : m.endsRun with
              | true => exact .ended hm hs hp ht he
              | false => exact .collected hm hs hp ht he

/-- What taking a marker makes of a reader. -/
inductive Taken (reader : Reader) : Marker → Reader → Prop
  | parameter {key value : Text} : reader.inInputs = true →
      Taken reader (.input key value) { reader with draft := reader.draft.withInput key value }
  | closed : reader.inInputs = true → Taken reader .blank { reader with inInputs := false }
  /-- Any other marker, which closes the block if that is still open. -/
  | noted {m : Marker} {d : Draft} : reader.draft.note m = .ok d →
      (reader.inInputs = true → m ≠ .blank ∧ ∀ key value, m ≠ .input key value) →
      Taken reader m
        { reader with draft := d, inInputs := false, phase := phaseAfter reader.phase m }

theorem takeField_ok {reader taken : Reader} {m : Marker} (h : reader.takeField m = .ok taken) :
    ∃ d, reader.draft.note m = .ok d ∧ taken =
      { reader with draft := d, inInputs := false, phase := phaseAfter reader.phase m } := by
  unfold takeField at h
  cases hn : reader.draft.note m with
  | error e =>
      rw [hn] at h
      cases h
  | ok d =>
      rw [hn] at h
      cases h
      exact ⟨d, rfl, rfl⟩

theorem take_taken {reader taken : Reader} {m : Marker} (h : reader.take m = .ok taken) :
    Taken reader m taken := by
  unfold take at h
  split_ifs at h with hblock
  · split at h
    · cases h
      exact .parameter hblock
    · cases h
      exact .closed hblock
    · rename_i notInput notBlank
      obtain ⟨d, hn, rfl⟩ := takeField_ok h
      exact .noted hn fun _ => ⟨notBlank, notInput⟩
  · obtain ⟨d, hn, rfl⟩ := takeField_ok h
    exact .noted hn fun hopen => absurd hopen hblock

/-- A marker that is taken leaves the line numbers alone, and keeps the run open. -/
theorem take_ok {reader taken : Reader} {m : Marker} (h : reader.take m = .ok taken) :
    taken.started = reader.started ∧ taken.lastLine = reader.lastLine ∧
      (reader.phase ≠ none → taken.phase ≠ none) := by
  cases take_taken h with
  | parameter => exact ⟨rfl, rfl, id⟩
  | closed => exact ⟨rfl, rfl, id⟩
  | noted =>
      refine ⟨rfl, rfl, fun hopen => ?_⟩
      unfold phaseAfter
      split
      · simp
      · exact hopen

theorem step_lastLine (limit : Nat) (reader : Reader) (line : Line) :
    (reader.step limit line).1.lastLine = line.number := by
  have h := step_move limit reader line
  generalize reader.step limit line = s at h ⊢
  cases h with
  | passed | begun | outside | dropped => rfl
  | ended _ _ _ ht => exact (take_ok ht).2.1
  | collected _ _ _ ht => exact (take_ok ht).2.1

/-- Reads lines one after another: the reader behind them, and their findings in order. -/
def readAll (limit : Nat) : Reader → List Line → Reader × List Finding
  | reader, [] => (reader, [])
  | reader, line :: rest =>
      let next := reader.step limit line
      let last := readAll limit next.1 rest
      (last.1, next.2.toList ++ last.2)

@[simp] theorem readAll_nil (limit : Nat) (reader : Reader) :
    readAll limit reader [] = (reader, []) := rfl

theorem readAll_cons (limit : Nat) (reader : Reader) (line : Line) (rest : List Line) :
    readAll limit reader (line :: rest) =
      ((readAll limit (reader.step limit line).1 rest).1,
        (reader.step limit line).2.toList ++
          (readAll limit (reader.step limit line).1 rest).2) := rfl

def leftOver (reader : Reader) : List Finding :=
  (reader.finish.2.map Finding.fault).toList

theorem leftOver_eq (reader : Reader) :
    reader.leftOver = ((reader.unfinished? reader.lastLine).map Finding.fault).toList := by
  unfold leftOver finish
  split_ifs with h
  · simp [unfinished?, h]
  · rfl

/-- Everything that lines and then the end of the log bring to light. -/
def harvest (limit : Nat) (reader : Reader) (lines : List Line) : List Finding :=
  (readAll limit reader lines).2 ++ (readAll limit reader lines).1.leftOver

@[simp] theorem harvest_nil (limit : Nat) (reader : Reader) :
    harvest limit reader [] = reader.leftOver := by
  simp [harvest]

theorem harvest_cons (limit : Nat) (reader : Reader) (line : Line) (rest : List Line) :
    harvest limit reader (line :: rest) =
      (reader.step limit line).2.toList ++ harvest limit (reader.step limit line).1 rest := by
  simp [harvest, readAll_cons]

theorem harvest_append (limit : Nat) (reader : Reader) (lines more : List Line) :
    harvest limit reader (lines ++ more) =
      (readAll limit reader lines).2 ++ harvest limit (readAll limit reader lines).1 more := by
  induction lines generalizing reader with
  | nil => simp
  | cons line rest ih =>
      simp only [List.cons_append, harvest_cons, ih, readAll_cons, List.append_assoc]

end Reader

namespace Outcome

/-- What a reading would bring to light if no fault could end it. -/
def found (limit : Nat) (failure : Option Text) (reader : Reader) (lines : List Line) :
    List Finding :=
  match failure with
  | none => reader.harvest limit lines
  | some _ => (reader.readAll limit lines).2

theorem found_cons (limit : Nat) (failure : Option Text) (reader : Reader) (line : Line)
    (rest : List Line) :
    found limit failure reader (line :: rest) =
      (reader.step limit line).2.toList ++
        found limit failure (reader.step limit line).1 rest := by
  cases failure
  · exact Reader.harvest_cons limit reader line rest
  · rfl

/-- A strict reading ends with its first fault, any other reading with the failure of its
source, and only what neither of them ends tells its findings. -/
def conclude (strict : Bool) (failure : Option Text) (all : List Finding) :
    Except Fault (List Finding) :=
  match if strict then all.findSome? fault? else none, failure with
  | some f, _ => .error f
  | none, some reason => .error (.unreadable reason)
  | none, none => .ok all

theorem conclude_record (strict : Bool) (failure : Option Text) (r : Record)
    (all : List Finding) :
    conclude strict failure (.record r :: all) =
      (conclude strict failure all).map (.record r :: ·) := by
  simp only [conclude, List.findSome?_cons, fault?]
  generalize (if strict then all.findSome? fault? else none) = first
  cases first with
  | some f => rfl
  | none => cases failure <;> rfl

theorem conclude_fault_strict (failure : Option Text) (f : Fault) (all : List Finding) :
    conclude true failure (.fault f :: all) = .error f := by
  simp only [conclude, if_true, List.findSome?_cons, fault?]

theorem conclude_fault_lenient (failure : Option Text) (f : Fault) (all : List Finding) :
    conclude false failure (.fault f :: all) =
      (conclude false failure all).map (.fault f :: ·) := by
  cases failure <;> rfl

/-- What the findings of a log of so many lines amount to. -/
def ofFindings (lines : Nat) (all : List Finding) : Outcome :=
  ⟨all.filterMap record?, all.filterMap fault?, lines⟩

theorem length_records_add_faults (all : List Finding) :
    (all.filterMap record?).length + (all.filterMap fault?).length = all.length := by
  induction all with
  | nil => rfl
  | cons finding rest ih =>
      cases finding <;>
        simp only [List.filterMap_cons, record?, fault?, List.length_cons] <;> omega

theorem ending_eq (options : Options) (failure : Option Text) (reader : Reader) :
    ending options failure reader =
      conclude options.strict failure (found options.maxLineLength failure reader []) := by
  cases failure with
  | some reason => simp [ending, conclude, found]
  | none =>
      simp only [ending, found, Reader.harvest_nil, Reader.leftOver]
      cases reader.finish.2 with
      | none => simp [conclude]
      | some f => cases options.strict <;> simp [conclude, fault?]

theorem findings_eq (options : Options) (failure : Option Text) (reader : Reader)
    (lines : List Line) :
    findings options failure reader lines =
      conclude options.strict failure (found options.maxLineLength failure reader lines) := by
  induction lines generalizing reader with
  | nil => exact ending_eq options failure reader
  | cons line rest ih =>
      rw [findings, found_cons]
      rcases reader.step options.maxLineLength line with ⟨next, _ | r | f⟩
      · exact ih next
      · simp only [ih, Option.toList_some, List.singleton_append, conclude_record]
      · simp only [ih, Option.toList_some, List.singleton_append]
        cases options.strict with
        | true => simp only [if_true, conclude_fault_strict]
        | false => simp only [Bool.false_eq_true, if_false, conclude_fault_lenient]

theorem ofSource_eq (options : Options) (source : Source) :
    ofSource options source =
      (conclude options.strict (source.buffered options.bufferSize).failure
        (found options.maxLineLength (source.buffered options.bufferSize).failure Reader.start
          (source.buffered options.bufferSize).lines)).map
            (ofFindings (source.buffered options.bufferSize).lines.length) := by
  rw [ofSource, findings_eq]
  rfl

theorem conclude_ok {strict : Bool} {failure : Option Text} {all found : List Finding}
    (h : conclude strict failure all = .ok found) : failure = none ∧ found = all := by
  unfold conclude at h
  split at h
  · cases h
  · cases h
  · cases h
    exact ⟨rfl, rfl⟩

/-- A reading that succeeds makes its outcome of all that its lines bring to light. -/
theorem ofSource_ok {options : Options} {source : Source} {outcome : Outcome}
    (h : ofSource options source = .ok outcome) :
    let lines := (source.buffered options.bufferSize).lines
    outcome = ofFindings lines.length (Reader.start.harvest options.maxLineLength lines) := by
  simp only [ofSource_eq] at h
  generalize source.buffered options.bufferSize = read at h ⊢
  cases hc : conclude options.strict read.failure
      (found options.maxLineLength read.failure Reader.start read.lines) with
  | error f =>
      rw [hc] at h
      cases h
  | ok all =>
      rw [hc] at h
      cases h
      obtain ⟨hfailure, rfl⟩ := conclude_ok hc
      rw [hfailure, found]

/-- A lenient reading of a source that does not fail tells all findings. -/
theorem ofSource_lenient (options : Options) (octets : Octets) :
    let lines := ((Source.ofOctets octets).buffered options.bufferSize).lines
    ofSource { options with strict := false } (.ofOctets octets) =
      .ok (ofFindings lines.length (Reader.start.harvest options.maxLineLength lines)) := by
  rw [ofSource_eq, Source.failure_buffered]
  rfl

/-- Behind a buffer without room, every reading ends at once and has read nothing. -/
theorem ofSource_roomless (options : Options) (h : options.bufferSize = 0) (source : Source) :
    ofSource options source = .ok ⟨[], [], 0⟩ := by
  rw [ofSource_eq, h, Source.buffered, Source.lines_empty]
  cases options.strict <;> rfl

end Outcome

end RunLog
