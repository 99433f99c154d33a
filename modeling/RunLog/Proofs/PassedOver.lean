import RunLog.Proofs.MarkerReadings
import RunLog.Proofs.Strictness

/-!
# Lines that make no difference

Some lines are passed over wherever they stand: overlong ones and chatter. Others
are passed over where they stand: any marker that begins no run, between two runs,
and a blank line or an input parameter in a run whose block is closed. Which lines
these are depends on the reader at that place (`Reader.passesOver`).

Leaving out such lines, or putting more of them in, changes the numbers of the lines
behind them and nothing else. Numbers are carried through a reading and never looked
at, so they can be taken away on both sides (`step_unnumbered`); what is passed over
then does not change the reader at all. A log and the shorter one are so read by the
same reader, step by step.
-/
namespace RunLog

def Line.unnumbered (line : Line) : Line :=
  ⟨0, line.text⟩

theorem Source.lines_unnumbered (s : Source) :
    s.lines.map Line.unnumbered = s.texts.map (Line.mk 0) := by
  conv_rhs => rw [← List.zipIdx_map_fst 1 s.texts, List.map_map]
  rw [lines, List.map_map]
  rfl

/-- The fault without the lines that it names. -/
def Fault.unnumbered : Fault → Fault
  | .unreadable reason => .unreadable reason
  | .unfinished _ _ => .unfinished 0 0
  | .badValue _ field value => .badValue 0 field value
  | .missing _ field => .missing 0 field

def Finding.unnumbered : Finding → Finding
  | .record r => .record r
  | .fault f => .fault f.unnumbered

theorem Fault.unnumbered_ofShortfall (number : Nat) (e : Shortfall) :
    (ofShortfall number e).unnumbered = ofShortfall 0 e := by
  cases e <;> rfl

theorem Finding.unnumbered_ofDraft (number : Nat) (d : Draft) :
    (ofDraft number d).unnumbered = ofDraft 0 d := by
  unfold ofDraft
  cases d.complete with
  | ok r => rfl
  | error e => exact congrArg Finding.fault (Fault.unnumbered_ofShortfall number e)

namespace Reader

variable {limit : Nat} {reader : Reader} {line : Line}

/-- The reader without its line numbers. -/
def unnumbered (reader : Reader) : Reader :=
  { reader with started := 0, lastLine := 0 }

theorem unnumbered_take (reader : Reader) (m : Marker) :
    reader.unnumbered.take m = (reader.take m).map unnumbered := by
  have field : reader.unnumbered.takeField m = (reader.takeField m).map unnumbered := by
    unfold takeField
    change (reader.draft.note m).map _ = ((reader.draft.note m).map _).map unnumbered
    cases reader.draft.note m <;> rfl
  unfold take
  change (if reader.inInputs then _ else _) = _
  split
  · cases m with
    | input | blank => rfl
    | _ => exact field
  · exact field

theorem step_unnumbered (limit : Nat) (reader : Reader) (line : Line) :
    reader.unnumbered.step limit line.unnumbered =
      ((reader.step limit line).1.unnumbered, (reader.step limit line).2.map .unnumbered) := by
  have marker : line.unnumbered.marker? limit = line.marker? limit := rfl
  rw [step_eq, step_eq, marker]
  cases line.marker? limit with
  | none => rfl
  | some m =>
      change (reader.pass line).unnumbered.mark 0 m = _
      simp only [mark]
      rw [unnumbered_take]
      change (if m.startsRun then _ else if (reader.pass line).phase = none then _ else _) = _
      split
      · refine Prod.ext rfl ?_
        simp only [Option.map_map]
        change (reader.phase.map _).map _ = (reader.phase.map _).map _
        cases reader.phase <;> rfl
      · split
        · rfl
        · cases (reader.pass line).take m with
          | error e =>
              refine Prod.ext rfl ?_
              exact congrArg (some ∘ Finding.fault) (Fault.unnumbered_ofShortfall _ e).symm
          | ok taken =>
              simp only [Except.map]
              split
              · refine Prod.ext rfl ?_
                exact congrArg some (Finding.unnumbered_ofDraft _ taken.draft).symm
              · rfl

theorem readAll_unnumbered (limit : Nat) (reader : Reader) (lines : List Line) :
    reader.unnumbered.readAll limit (lines.map .unnumbered) =
      ((reader.readAll limit lines).1.unnumbered,
        (reader.readAll limit lines).2.map .unnumbered) := by
  induction lines generalizing reader with
  | nil => rfl
  | cons line rest ih =>
      rw [List.map_cons, readAll_cons, readAll_cons, step_unnumbered, ih, List.map_append]
      cases (reader.step limit line).2 <;> rfl

theorem readAll_congr {lines others : List Line} (reader : Reader)
    (same : lines.map Line.unnumbered = others.map Line.unnumbered) :
    (reader.readAll limit lines).1.unnumbered = (reader.readAll limit others).1.unnumbered := by
  have read := readAll_unnumbered limit reader lines
  rw [same, readAll_unnumbered] at read
  exact (congrArg Prod.fst read).symm

theorem leftOver_unnumbered (reader : Reader) :
    reader.unnumbered.leftOver = reader.leftOver.map .unnumbered := by
  rw [leftOver_eq, leftOver_eq]
  change ((reader.phase.map _).map _).toList = ((reader.phase.map _).map _).toList.map _
  cases reader.phase <;> rfl

/-- Whether a line is passed over where the reader stands. -/
def passesOver (limit : Nat) (reader : Reader) (line : Line) : Bool :=
  match line.marker? limit with
  | none => true
  | some m =>
      if m.startsRun then false
      else if reader.phase = none then true
      else !reader.inInputs && (m = .blank || m.parameter?.isSome)

theorem take_late {m : Marker} (closed : reader.inInputs = false)
    (hm : m = .blank ∨ m.parameter?.isSome = true) : reader.take m = .ok reader := by
  have field : ∀ m, reader.draft.note m = .ok reader.draft →
      phaseAfter reader.phase m = reader.phase → reader.takeField m = .ok reader := by
    intro m hnote hphase
    rw [takeField, hnote, hphase, ← closed]
    rfl
  unfold take
  rw [if_neg (by simp [closed])]
  cases m with
  | blank => exact field _ rfl rfl
  | input key value => exact field _ rfl rfl
  | _ => simp [Marker.parameter?] at hm

/-- Of a line that is passed over only the number is noticed. -/
theorem step_passesOver (h : reader.passesOver limit line = true) :
    reader.step limit line = (reader.pass line, none) := by
  rw [step_eq]
  unfold passesOver at h
  cases hm : line.marker? limit with
  | none => rfl
  | some m =>
      simp only [hm] at h
      split_ifs at h with hstarts hidle
      · simp [mark, hstarts, hidle]
      · rw [Bool.and_eq_true, Bool.or_eq_true, Bool.not_eq_true', decide_eq_true_eq] at h
        obtain ⟨closed, late⟩ := h
        have kept : (reader.pass line).take m = .ok (reader.pass line) := take_late closed late
        have running : m.endsRun = false := by
          cases m with
          | blank | input => rfl
          | _ => simp [Marker.parameter?] at late
        simp [mark, hstarts, hidle, kept, running]

/-- Readers that differ in their line numbers only pass over the same lines. -/
theorem passesOver_congr {whole part : Reader} (same : whole.unnumbered = part.unnumbered)
    (line : Line) : whole.passesOver limit line = part.passesOver limit line :=
  congrArg (fun reader => reader.passesOver limit line) same

/-- Where the readers of two logs differ in their line numbers only, lines that either of them
passes over can be left out of the one log without a trace. -/
theorem found_filter (failure : Option Text) (kept : Line → Bool) {lines : List Line}
    {whole part : Reader} (same : whole.unnumbered = part.unnumbered)
    (h : ∀ i (hi : i < lines.length), kept lines[i] = false →
      (whole.readAll limit (lines.take i)).1.passesOver limit lines[i] = true ∨
        (part.readAll limit ((lines.take i).filter kept)).1.passesOver limit lines[i] = true) :
    (Outcome.found limit failure whole lines).map Finding.unnumbered =
      (Outcome.found limit failure part (lines.filter kept)).map Finding.unnumbered := by
  induction lines generalizing whole part with
  | nil =>
      cases failure with
      | none =>
          simp only [Outcome.found, List.filter_nil, harvest_nil]
          rw [← leftOver_unnumbered, ← leftOver_unnumbered, same]
      | some reason => rfl
  | cons line rest ih =>
      cases hkept : kept line with
      | true =>
          have stepped := step_unnumbered limit whole line
          rw [same, step_unnumbered] at stepped
          obtain ⟨states, findings⟩ := Prod.mk.inj stepped
          have later := ih states.symm fun i hi hout => by
            simpa [hkept, readAll_cons] using h (i + 1) (Nat.succ_lt_succ hi) hout
          rw [List.filter_cons_of_pos hkept, Outcome.found_cons, Outcome.found_cons,
            List.map_append, List.map_append, later, ← Option.toList_map, ← Option.toList_map,
            findings]
      | false =>
          have passed : whole.passesOver limit line = true := by
            rcases h 0 (Nat.succ_pos _) hkept with hwhole | hpart
            · exact hwhole
            · exact (passesOver_congr same line).trans hpart
          have unnoticed := step_passesOver passed
          have still : (whole.pass line).unnumbered = part.unnumbered := same
          have later := ih still fun i hi hout => by
            simpa [hkept, readAll_cons, unnoticed] using h (i + 1) (Nat.succ_lt_succ hi) hout
          rw [List.filter_cons_of_neg (by simp [hkept]), Outcome.found_cons, unnoticed, ← later]
          rfl

end Reader

namespace Outcome

/-- What a reading tells, less the line numbers. -/
def told : Except Fault Outcome → Except Fault (List Record × List Fault)
  | .ok outcome => .ok (outcome.records, outcome.faults.map .unnumbered)
  | .error f => .error f.unnumbered

theorem records_unnumbered (all : List Finding) :
    (all.map Finding.unnumbered).filterMap record? = all.filterMap record? := by
  rw [List.filterMap_map]
  congr 1
  funext finding
  cases finding <;> rfl

theorem faults_unnumbered (all : List Finding) :
    (all.map Finding.unnumbered).filterMap fault? =
      (all.filterMap fault?).map .unnumbered := by
  rw [List.filterMap_map, List.map_filterMap]
  congr 1
  funext finding
  cases finding <;> rfl

theorem told_conclude {all others : List Finding}
    (same : all.map Finding.unnumbered = others.map Finding.unnumbered) (strict : Bool)
    (failure : Option Text) (m n : Nat) :
    told ((conclude strict failure all).map (ofFindings m)) =
      told ((conclude strict failure others).map (ofFindings n)) := by
  have records : all.filterMap record? = others.filterMap record? := by
    rw [← records_unnumbered, same, records_unnumbered]
  have faults : (all.filterMap fault?).map Fault.unnumbered =
      (others.filterMap fault?).map Fault.unnumbered := by
    rw [← faults_unnumbered, same, faults_unnumbered]
  have lenient : told ((conclude false failure all).map (ofFindings m)) =
      told ((conclude false failure others).map (ofFindings n)) := by
    cases failure with
    | some reason => rfl
    | none =>
        exact congrArg Except.ok (Prod.ext records faults)
  cases strict with
  | false => exact lenient
  | true =>
      rw [conclude_strict, conclude_strict, map_firstFault, map_firstFault]
      cases hall : all.filterMap fault? with
      | nil =>
          rw [hall, List.map_nil, eq_comm, List.map_eq_nil_iff] at faults
          rw [faults]
          exact lenient
      | cons f rest =>
          rw [hall, List.map_cons] at faults
          obtain ⟨g, _, hothers, first, -⟩ := List.map_eq_cons_iff.mp faults.symm
          rw [hothers]
          exact congrArg Except.error first.symm

theorem found_unnumbered (limit : Nat) (failure : Option Text) (reader : Reader)
    (lines : List Line) :
    found limit failure reader.unnumbered (lines.map .unnumbered) =
      (found limit failure reader lines).map .unnumbered := by
  have read := Reader.readAll_unnumbered limit reader lines
  cases failure with
  | some reason => exact congrArg Prod.snd read
  | none =>
      simp only [found, Reader.harvest]
      rw [read, Reader.leftOver_unnumbered, List.map_append]

end Outcome

/-- One log is another with some lines left out, each of which is passed over where it stands in
the longer log, or where it would be put into the shorter one. -/
structure Source.LeavesOut (limit : Nat) (whole part : Source) (kept : Line → Bool) : Prop where
  failure : part.failure = whole.failure
  texts : part.texts = (whole.lines.filter kept).map Line.text
  passedOver : ∀ i (hi : i < whole.lines.length), kept whole.lines[i] = false →
    (Reader.start.readAll limit (whole.lines.take i)).1.passesOver limit whole.lines[i] = true ∨
      (Reader.start.readAll limit (part.lines.take ((whole.lines.take i).countP kept))).1.passesOver
        limit whole.lines[i] = true

namespace Source.LeavesOut

variable {limit : Nat} {whole part : Source} {kept : Line → Bool}

theorem lines (h : LeavesOut limit whole part kept) :
    part.lines.map Line.unnumbered = (whole.lines.filter kept).map Line.unnumbered := by
  rw [part.lines_unnumbered, h.texts, List.map_map]
  rfl

/-- In front of a line that is left out, the shorter log has those of the lines before it that
are kept. -/
theorem before (h : LeavesOut limit whole part kept) (i : Nat) :
    (part.lines.take ((whole.lines.take i).countP kept)).map Line.unnumbered =
      ((whole.lines.take i).filter kept).map Line.unnumbered := by
  have cut : whole.lines.filter kept =
      (whole.lines.take i).filter kept ++ (whole.lines.drop i).filter kept := by
    rw [← List.filter_append, List.take_append_drop]
  rw [List.map_take, h.lines, ← List.map_take, cut, List.countP_eq_length_filter, List.take_left]

theorem found (h : LeavesOut limit whole part kept) (failure : Option Text) :
    (Outcome.found limit failure Reader.start whole.lines).map Finding.unnumbered =
      (Outcome.found limit failure Reader.start part.lines).map Finding.unnumbered := by
  have passed : ∀ i (hi : i < whole.lines.length), kept whole.lines[i] = false →
      (Reader.start.readAll limit (whole.lines.take i)).1.passesOver limit whole.lines[i] = true ∨
        (Reader.start.readAll limit ((whole.lines.take i).filter kept)).1.passesOver limit
          whole.lines[i] = true := by
    intro i hi hout
    refine (h.passedOver i hi hout).imp_right fun hpart => ?_
    rw [← Reader.passesOver_congr (Reader.readAll_congr Reader.start (h.before i))]
    exact hpart
  have fewer := Reader.found_filter failure kept rfl passed
  rw [fewer, ← Outcome.found_unnumbered, ← Outcome.found_unnumbered, h.lines]

end Source.LeavesOut

/-- Lines that are passed over make no difference but for the line numbers, whether they are left
out of a log or put into one: the records are the same, the faults are of the same sort with the
same fields and values, and a strict reading ends with the same fault or with none. -/
theorem Outcome.told_of_leavesOut (options : Options) {whole part : Source} {kept : Line → Bool}
    (h : Source.LeavesOut options.maxLineLength whole part kept) :
    told (ofSource options whole) = told (ofSource options part) := by
  rcases Nat.eq_zero_or_pos options.bufferSize with none | room
  · rw [ofSource_roomless options none, ofSource_roomless options none]
  · have alike := h.found whole.failure
    rw [ofSource_eq, ofSource_eq, Source.buffered_of_pos room, Source.buffered_of_pos room,
      h.failure]
    exact told_conclude alike options.strict whole.failure _ _

/-- A log with a marker before its run, a parameter, a blank line and chatter behind the block of
parameters, and a line of more than 30 octets. -/
def noisyLog : Text :=
  ("running 4 threads\nInputs:\nnum_threads: 4\n\nnum_threads: 16\n\nWARMUP start!\n" ++
    "Throughput(Ops/usec):    1.00000\nExpected size of MAP: many\n").toList

/-- The same log without any of these. -/
def quietLog : Text :=
  "Inputs:\nnum_threads: 4\n\nExpected size of MAP: many\n".toList

theorem Outcome.told_of_leavesOut_noisyLog :
    let options : Options := { Options.standard with maxLineLength := 30, strict := true }
    Source.LeavesOut options.maxLineLength (.ofText noisyLog) (.ofText quietLog)
        (fun line => line.number ∈ [2, 3, 4, 9]) ∧
      ofSource options (.ofText quietLog) =
        .error (.badValue 4 "expected_final_size".toList "many".toList) ∧
      told (ofSource options (.ofText noisyLog)) =
        .error (.badValue 0 "expected_final_size".toList "many".toList) := by
  intro options
  have leaves : Source.LeavesOut options.maxLineLength (.ofText noisyLog) (.ofText quietLog)
      (fun line => line.number ∈ [2, 3, 4, 9]) :=
    ⟨Eq.refl none, by decide +kernel, by decide +kernel⟩
  have lines : (Source.ofText quietLog).lines = [⟨1, "Inputs:".toList⟩,
      ⟨2, "num_threads: 4".toList⟩, ⟨3, []⟩, ⟨4, "Expected size of MAP: many".toList⟩] := by
    decide +kernel
  have read : ofSource options (.ofText quietLog) =
      .error (.badValue 4 "expected_final_size".toList "many".toList) := by
    rw [ofSource_of_pos (by decide), lines]
    rfl
  have same := told_of_leavesOut options leaves
  rw [read] at same
  exact ⟨leaves, read, same⟩

end RunLog
