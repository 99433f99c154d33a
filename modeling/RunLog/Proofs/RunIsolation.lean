import RunLog.Proofs.ReaderMoves

/-!
# Runs do not see each other

The lines of a log are cut just before each line that begins a run. Each
segment is then read by a reader of its own, which has seen nothing of the rest
of the log. The findings are those of the whole log, with one difference: a run
that never ends is noticed at the line that begins the next run, and not at the
last line of its segment.

The argument is short because a line that begins a run leaves the same reader
behind whatever was read before it (`step_begins`): no field of the reader
survives it.
-/
namespace RunLog

/-- Cuts just before each line that begins a run. The first part is what stands before the
first cut. -/
def Line.segments (limit : Nat) : List Line → List Line × List (List Line)
  | [] => ([], [])
  | line :: rest =>
      let cut := segments limit rest
      if line.beginsRun limit then ([], (line :: cut.1) :: cut.2) else (line :: cut.1, cut.2)

inductive Line.Segment (limit : Nat) : List Line → Prop
  | intro (first : Line) (body : List Line) : first.beginsRun limit = true →
      (∀ line ∈ body, line.beginsRun limit = false) → Segment limit (first :: body)

theorem Line.segments_join (limit : Nat) (lines : List Line) :
    (segments limit lines).1 ++ (segments limit lines).2.flatten = lines := by
  induction lines with
  | nil => rfl
  | cons line rest ih =>
      rw [segments]
      split
      · simpa using ih
      · simpa using ih

theorem Line.segments_front (limit : Nat) (lines : List Line) :
    ∀ line ∈ (segments limit lines).1, line.beginsRun limit = false := by
  induction lines with
  | nil => simp [segments]
  | cons line rest ih =>
      rw [segments]
      split
      · simp
      · rename_i hb
        simp only [List.mem_cons, forall_eq_or_imp]
        exact ⟨by simpa using hb, ih⟩

theorem Line.segments_shape (limit : Nat) (lines : List Line) :
    ∀ segment ∈ (segments limit lines).2, Segment limit segment := by
  induction lines with
  | nil => simp [segments]
  | cons line rest ih =>
      rw [segments]
      split
      · rename_i hb
        simp only [List.mem_cons, forall_eq_or_imp]
        exact ⟨.intro line _ hb (segments_front limit rest), ih⟩
      · exact ih

/-- A run that never ends, when it is noticed at another line than the last one of its
segment. -/
def Finding.noticedAt (next : Option Nat) : Finding → Finding
  | .fault (.unfinished started line) => .fault (.unfinished started (next.getD line))
  | finding => finding

@[simp] theorem Finding.noticedAt_none : Finding.noticedAt none = id := by
  funext finding
  match finding with
  | .record r => rfl
  | .fault (.unreadable reason) => rfl
  | .fault (.unfinished started line) => rfl
  | .fault (.badValue line field value) => rfl
  | .fault (.missing line field) => rfl

def Line.firstNumber (segments : List (List Line)) : Option Nat :=
  segments.flatten.head?.map Line.number

@[simp] theorem Line.firstNumber_nil : firstNumber [] = none := rfl
@[simp] theorem Line.firstNumber_cons (first : Line) (body : List Line)
    (rest : List (List Line)) : firstNumber ((first :: body) :: rest) = some first.number := rfl

namespace Reader

/-- What segments bring to light when each has a reader of its own. -/
def apart (limit : Nat) : List (List Line) → List Finding
  | [] => []
  | segment :: rest =>
      (start.harvest limit segment).map (Finding.noticedAt (Line.firstNumber rest)) ++
        apart limit rest

/-- A line that begins a run leaves the same reader behind whatever was read before. -/
theorem step_begins {limit : Nat} {line : Line} (h : line.beginsRun limit = true)
    (reader : Reader) :
    reader.step limit line =
      ((start.step limit line).1, (reader.unfinished? line.number).map .fault) := by
  obtain ⟨m, hm, hs⟩ := Line.beginsRun_iff.mp h
  have opened : ∀ other : Reader, other.step limit line =
      ((other.pass line).openRun line.number m,
        (other.unfinished? line.number).map .fault) := by
    intro other
    simp only [step_eq, hm, mark, hs, if_true, pass_unfinished?]
  rw [opened reader, opened start]
  rfl

theorem readAll_idle {limit : Nat} {reader : Reader} {lines : List Line}
    (hp : reader.phase = none) (h : ∀ line ∈ lines, line.beginsRun limit = false) :
    (readAll limit reader lines).2 = [] ∧ (readAll limit reader lines).1.phase = none := by
  induction lines generalizing reader with
  | nil => exact ⟨rfl, hp⟩
  | cons line rest ih =>
      have hb := h line (List.mem_cons_self ..)
      have move := step_move limit reader line
      rw [readAll_cons]
      generalize reader.step limit line = s at move ⊢
      cases move with
      | passed hm => exact ih hp fun l hl => h l (List.mem_cons_of_mem _ hl)
      | outside hm hs => exact ih hp fun l hl => h l (List.mem_cons_of_mem _ hl)
      | begun hm hs => simp [Line.beginsRun, hm, hs] at hb
      | dropped _ _ hopen => exact absurd hp hopen
      | ended _ _ hopen => exact absurd hp hopen
      | collected _ _ hopen => exact absurd hp hopen

theorem harvest_idle {limit : Nat} {reader : Reader} {lines : List Line}
    (hp : reader.phase = none) (h : ∀ line ∈ lines, line.beginsRun limit = false) :
    reader.harvest limit lines = [] := by
  have idle := readAll_idle hp h
  rw [harvest, idle.1, leftOver_eq, unfinished?, idle.2]
  rfl

/-- Only the end of a segment tells of a run that never ends. -/
theorem readAll_noticedAt {limit : Nat} {lines : List Line} (next : Option Nat)
    (reader : Reader) (h : ∀ line ∈ lines, line.beginsRun limit = false) :
    (readAll limit reader lines).2.map (Finding.noticedAt next) =
      (readAll limit reader lines).2 := by
  induction lines generalizing reader with
  | nil => rfl
  | cons line rest ih =>
      have hb := h line (List.mem_cons_self ..)
      have move := step_move limit reader line
      rw [readAll_cons]
      generalize reader.step limit line = s at move ⊢
      simp only [List.map_append, ih s.1 fun l hl => h l (List.mem_cons_of_mem _ hl)]
      congr 1
      cases move with
      | passed | outside | collected => rfl
      | begun hm hs => simp [Line.beginsRun, hm, hs] at hb
      | @dropped _ e => cases e <;> rfl
      | @ended _ taken =>
          simp only [Option.toList_some, List.map_cons, List.map_nil, Finding.ofDraft]
          cases taken.draft.complete with
          | ok r => rfl
          | error e => cases e <;> rfl

theorem leftOver_noticedAt (reader : Reader) (number : Nat) :
    reader.leftOver.map (Finding.noticedAt (some number)) =
      ((reader.unfinished? number).map Finding.fault).toList := by
  rw [leftOver_eq, unfinished?, unfinished?]
  cases reader.phase <;> rfl

/-- Segments read one after another bring to light what each brings to light on its own,
after the run that was open before them. -/
theorem harvest_segments {limit : Nat} (reader : Reader) {segments : List (List Line)}
    (shape : ∀ segment ∈ segments, Line.Segment limit segment) :
    reader.harvest limit segments.flatten =
      reader.leftOver.map (Finding.noticedAt (Line.firstNumber segments)) ++
        apart limit segments := by
  induction segments generalizing reader with
  | nil => simp [apart]
  | cons segment rest ih =>
      obtain ⟨first, body, hfirst, hbody⟩ := shape segment (List.mem_cons_self ..)
      have quiet := readAll_noticedAt (Line.firstNumber rest) (start.step limit first).1 hbody
      have later := ih (readAll limit (start.step limit first).1 body).1
        fun s hs => shape s (List.mem_cons_of_mem _ hs)
      have whole : reader.harvest limit ((first :: body) :: rest).flatten =
          ((reader.unfinished? first.number).map Finding.fault).toList ++
            ((readAll limit (start.step limit first).1 body).2 ++
              (readAll limit (start.step limit first).1 body).1.harvest limit rest.flatten) := by
        rw [List.flatten_cons, List.cons_append, harvest_cons, harvest_append,
          step_begins hfirst reader]
      have alone : start.harvest limit (first :: body) =
          (readAll limit (start.step limit first).1 body).2 ++
            (readAll limit (start.step limit first).1 body).1.leftOver := by
        rw [harvest_cons, step_begins hfirst start]
        rfl
      rw [whole, later, apart, alone, List.map_append, quiet, Line.firstNumber_cons,
        leftOver_noticedAt, List.append_assoc]

/-- A log brings to light what its segments bring to light, each on its own. -/
theorem harvest_eq_apart (limit : Nat) (lines : List Line) :
    start.harvest limit lines = apart limit (Line.segments limit lines).2 := by
  have idle := readAll_idle (show start.phase = none from rfl) (Line.segments_front limit lines)
  calc
    start.harvest limit lines
      = start.harvest limit ((Line.segments limit lines).1 ++
          (Line.segments limit lines).2.flatten) := by rw [Line.segments_join]
    _ = (readAll limit start (Line.segments limit lines).1).1.harvest limit
          (Line.segments limit lines).2.flatten := by
        rw [harvest_append, idle.1, List.nil_append]
    _ = apart limit (Line.segments limit lines).2 := by
        rw [harvest_segments _ (Line.segments_shape limit lines), leftOver_eq, unfinished?,
          idle.2]
        rfl

theorem apart_records (limit : Nat) (segments : List (List Line)) :
    (apart limit segments).filterMap Outcome.record? =
      segments.flatMap fun segment =>
        (start.harvest limit segment).filterMap Outcome.record? := by
  have kept : ∀ next, Outcome.record? ∘ Finding.noticedAt next = Outcome.record? := by
    intro next
    funext finding
    rcases finding with r | _ | _ | _ | _ <;> rfl
  induction segments with
  | nil => rfl
  | cons segment rest ih =>
      rw [apart, List.filterMap_append, List.filterMap_map, kept, ih, List.flatMap_cons]

end Reader

/-- Of the lines that pass the buffer, those before the first run tell nothing. The records are
those that a fresh reader finds in each segment, and so are the faults, except that a run
which the next one interrupts is noticed where that begins. -/
theorem Outcome.runs_are_isolated (options : Options) (octets : Octets) :
    let limit := options.maxLineLength
    let lines := ((Source.ofOctets octets).buffered options.bufferSize).lines
    let front := (Line.segments limit lines).1
    let segments := (Line.segments limit lines).2
    ∃ outcome,
      ofSource { options with strict := false } (.ofOctets octets) = .ok outcome ∧
      front ++ segments.flatten = lines ∧
      (∀ line ∈ front, line.beginsRun limit = false) ∧
      (∀ segment ∈ segments, Line.Segment limit segment) ∧
      Reader.start.harvest limit front = [] ∧
      outcome.records =
        (segments.flatMap (Reader.start.harvest limit)).filterMap record? ∧
      outcome.faults = (Reader.apart limit segments).filterMap fault? := by
  intro limit lines front segments
  refine ⟨_, ofSource_lenient options octets, Line.segments_join limit lines,
    Line.segments_front limit lines, Line.segments_shape limit lines,
    Reader.harvest_idle rfl (Line.segments_front limit lines), ?_, ?_⟩
  · rw [ofFindings, Reader.harvest_eq_apart, Reader.apart_records, List.filterMap_flatMap]
  · rw [ofFindings, Reader.harvest_eq_apart]

end RunLog
