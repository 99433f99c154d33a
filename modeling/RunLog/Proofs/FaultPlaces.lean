import RunLog.Proofs.Dialects
import RunLog.Proofs.RunConservation

/-!
# Where faults are noticed

The lines of a source are numbered from one, without a gap. A fault names the
line at which it was noticed, and a run that never ends names the line that
began it as well. Both are lines of the log: a shortfall is noticed at a marker
inside the run that it drops, and a run that never ends at the start of the next
one, or else at the last line (`Fault.Drops`).

Faults come in the order of their lines. Two of them can share a line, when a
line begins a run and is the last line of the log. The lines that began the runs
that never ended are all different.
-/
namespace RunLog

theorem Source.lines_number (s : Source) :
    s.lines.map Line.number = List.range' 1 s.lines.length := by
  have numbers : s.lines.map Line.number = (s.texts.zipIdx 1).map Prod.snd := by
    rw [lines, List.map_map]
    rfl
  rw [numbers, List.zipIdx_map_snd, lines, List.length_map, List.length_zipIdx]

theorem Source.lines_ascending (s : Source) :
    (s.lines.map Line.number).Pairwise (· < ·) := by
  rw [s.lines_number]
  exact List.pairwise_lt_range'

theorem Source.number_eq {s : Source} {before after : List Line} {line : Line}
    (h : s.lines = before ++ line :: after) : line.number = before.length + 1 := by
  have number := congrArg (·[before.length]?) s.lines_number
  simp only [h, List.map_append, List.map_cons, List.length_append, List.length_cons] at number
  rw [List.getElem?_append_right (by simp), List.length_map, Nat.sub_self] at number
  rw [List.getElem?_range' (by omega)] at number
  simpa [Nat.add_comm] using number

theorem Source.number_bounds (s : Source) {line : Line} (h : line ∈ s.lines) :
    1 ≤ line.number ∧ line.number ≤ s.lines.length := by
  have mem : line.number ∈ List.range' 1 s.lines.length :=
    s.lines_number ▸ List.mem_map_of_mem h
  rw [List.mem_range'_1] at mem
  omega

namespace Fault

def started? : Fault → Option Nat
  | .unfinished started _ => some started
  | _ => none

/-- The fault drops the run of a first line and a body, which `after` follows in the log. -/
inductive Drops (limit : Nat) (first : Line) (body after : List Line) : Fault → Prop
  | shortfall {line : Line} {m : Marker} {e : Shortfall} : line ∈ body →
      line.marker? limit = some m → m.startsRun = false →
      Drops limit first body after (.ofShortfall line.number e)
  | interrupted {next : Line} {rest : List Line} : after = next :: rest →
      Drops limit first body after (.unfinished first.number next.number)
  | cutOff : after = [] →
      Drops limit first body after (.unfinished first.number ((body.getLastD first).number))

@[simp] theorem line?_ofShortfall (number : Nat) (e : Shortfall) :
    (ofShortfall number e).line? = some number := by
  cases e <;> rfl

@[simp] theorem started?_ofShortfall (number : Nat) (e : Shortfall) :
    (ofShortfall number e).started? = none := by
  cases e <;> rfl

end Fault

namespace Finding

/-- The line at which a fault was noticed, if the finding is one. -/
def line? (finding : Finding) : Option Nat :=
  (Outcome.fault? finding).bind Fault.line?

def started? (finding : Finding) : Option Nat :=
  (Outcome.fault? finding).bind Fault.started?

theorem filterMap_line? (all : List Finding) :
    (all.filterMap Outcome.fault?).filterMap Fault.line? = all.filterMap line? := by
  rw [List.filterMap_filterMap]
  rfl

theorem filterMap_started? (all : List Finding) :
    (all.filterMap Outcome.fault?).filterMap Fault.started? = all.filterMap started? := by
  rw [List.filterMap_filterMap]
  rfl

end Finding

namespace Reader

variable {limit : Nat} {reader : Reader} {finding : Finding}

theorem step_finding {line : Line} (h : (reader.step limit line).2 = some finding) :
    finding = .fault (.unfinished reader.started line.number) ∨
      (∃ e, finding = .fault (.ofShortfall line.number e)) ∨ ∃ r, finding = .record r := by
  have move := step_move limit reader line
  generalize reader.step limit line = s at move h
  cases move with
  | passed | outside | collected => cases h
  | begun =>
      obtain ⟨f, hf, rfl⟩ := Option.map_eq_some_iff.mp h
      obtain ⟨phase, -, rfl⟩ := Option.map_eq_some_iff.mp hf
      exact .inl rfl
  | @dropped _ e =>
      cases h
      exact .inr (.inl ⟨e, rfl⟩)
  | @ended _ taken =>
      cases h
      unfold Finding.ofDraft
      cases taken.draft.complete with
      | ok r => exact .inr (.inr ⟨r, rfl⟩)
      | error e => exact .inr (.inl ⟨e, rfl⟩)

theorem leftOver_finding (h : finding ∈ reader.leftOver) :
    finding = .fault (.unfinished reader.started reader.lastLine) := by
  rw [leftOver_eq] at h
  obtain ⟨f, hf, rfl⟩ := Option.map_eq_some_iff.mp (Option.mem_toList.mp h)
  obtain ⟨phase, -, rfl⟩ := Option.map_eq_some_iff.mp hf
  rfl

theorem step_line? {line : Line} {n : Nat}
    (h : n ∈ (reader.step limit line).2.toList.filterMap Finding.line?) : n = line.number := by
  obtain ⟨finding, hmem, hn⟩ := List.mem_filterMap.mp h
  rcases step_finding (Option.mem_toList.mp hmem) with rfl | ⟨e, rfl⟩ | ⟨r, rfl⟩
  · exact (Option.some.inj hn).symm
  · rw [Finding.line?, Outcome.fault?, Option.bind_some, Fault.line?_ofShortfall] at hn
    exact (Option.some.inj hn).symm
  · cases hn

theorem leftOver_line? {n : Nat} (h : n ∈ reader.leftOver.filterMap Finding.line?) :
    n = reader.lastLine := by
  obtain ⟨finding, hmem, hn⟩ := List.mem_filterMap.mp h
  obtain rfl := leftOver_finding hmem
  exact (Option.some.inj hn).symm

/-- Faults are noticed in the order of their lines, none of them before the last line that was
read. -/
theorem harvest_ascending {lines : List Line}
    (later : (lines.map Line.number).Pairwise (· ≤ ·))
    (ahead : ∀ line ∈ lines, reader.lastLine ≤ line.number) :
    ((reader.harvest limit lines).filterMap Finding.line?).Pairwise (· ≤ ·) ∧
      ∀ n ∈ (reader.harvest limit lines).filterMap Finding.line?, reader.lastLine ≤ n := by
  induction lines generalizing reader with
  | nil =>
      rw [harvest_nil]
      refine ⟨?_, fun n hn => (leftOver_line? hn).ge⟩
      exact List.pairwise_of_forall_mem_list fun a ha b hb =>
        ((leftOver_line? ha).trans (leftOver_line? hb).symm).le
  | cons line rest ih =>
      rw [List.map_cons, List.pairwise_cons] at later
      rw [List.forall_mem_cons] at ahead
      have next : ∀ l ∈ rest, (reader.step limit line).1.lastLine ≤ l.number := by
        rw [step_lastLine]
        exact fun l hl => later.1 l.number (List.mem_map_of_mem hl)
      obtain ⟨ascending, behind⟩ := ih later.2 next
      rw [step_lastLine] at behind
      rw [harvest_cons, List.filterMap_append]
      constructor
      · refine List.pairwise_append.mpr ⟨?_, ascending, ?_⟩
        · exact List.pairwise_of_forall_mem_list fun a ha b hb =>
            ((step_line? ha).trans (step_line? hb).symm).le
        · intro a ha b hb
          exact (step_line? ha).trans_le (behind b hb)
      · intro n hn
        rcases List.mem_append.mp hn with hn | hn
        · exact ahead.1.trans (step_line? hn).ge
        · exact ahead.1.trans (behind n hn)

theorem endings_started? {lines : List Line} {ended : Nat × Finding}
    (h : ended ∈ reader.endings limit lines) : ∀ n ∈ ended.2.started?, n = ended.1 := by
  induction lines generalizing reader with
  | nil =>
      obtain ⟨finding, hmem, rfl⟩ := List.mem_map.mp h
      obtain rfl := leftOver_finding hmem
      intro n hn
      exact (Option.some.inj hn).symm
  | cons line rest ih =>
      rcases List.mem_append.mp h with hnow | hlater
      · obtain ⟨finding, hmem, rfl⟩ := List.mem_map.mp hnow
        intro n hn
        rcases step_finding (Option.mem_toList.mp hmem) with rfl | ⟨e, rfl⟩ | ⟨r, rfl⟩
        · exact (Option.some.inj hn).symm
        · simp [Finding.started?, Outcome.fault?] at hn
        · cases hn
      · exact ih hlater

/-- The lines that began the runs that never ended are among those that began a run, in their
order. -/
theorem started?_sublist (limit : Nat) (lines : List Line) :
    List.Sublist ((start.harvest limit lines).filterMap Finding.started?)
      ((lines.filter (Line.beginsRun limit)).map Line.number) := by
  have starts := endings_starts limit start lines
  rw [openStart_start, List.nil_append] at starts
  rw [← endings_findings, ← starts, List.filterMap_map]
  have told : ∀ ended ∈ start.endings limit lines, ∀ n ∈ ended.2.started?, n = ended.1 :=
    fun ended => endings_started?
  generalize start.endings limit lines = all at told
  induction all with
  | nil => exact .slnil
  | cons ended rest ih =>
      have later := ih fun other hother => told other (List.mem_cons_of_mem _ hother)
      rw [List.filterMap_cons, List.map_cons]
      split
      · exact later.cons _
      · rename_i n hn
        obtain rfl := told ended List.mem_cons_self n hn
        exact later.cons_cons _

end Reader

/-- A verdict against a run names a marker in it, or the line at which the run was given up. -/
theorem Verdict.fault_cases {limit started last : Nat} {opening : Marker} {body : List Line}
    {f : Fault} (h : Verdict opening started last (Line.markers limit body) (.fault f)) :
    (∃ line ∈ body, ∃ m e, line.marker? limit = some m ∧ f = .ofShortfall line.number e) ∨
      f = .unfinished started last := by
  have marked : ∀ {number m before after},
      Line.markers limit body = before ++ (number, m) :: after →
        ∃ line ∈ body, line.marker? limit = some m ∧ line.number = number := by
    intro number m before after hmarkers
    have mem : (number, m) ∈ Line.markers limit body := by simp [hmarkers]
    obtain ⟨line, hline, told⟩ := List.mem_filterMap.mp mem
    obtain ⟨other, hother, heq⟩ := Option.map_eq_some_iff.mp told
    cases heq
    exact ⟨line, hline, hother, rfl⟩
  generalize hfinding : Finding.fault f = finding at h
  cases h with
  | unfinished =>
      cases hfinding
      exact .inr rfl
  | @defect _ _ number m e hmarkers =>
      cases hfinding
      obtain ⟨line, hline, hm, rfl⟩ := marked hmarkers
      exact .inl ⟨line, hline, m, e, hm, rfl⟩
  | @ended _ _ number m d hmarkers =>
      obtain ⟨line, hline, hm, rfl⟩ := marked hmarkers
      unfold Finding.ofDraft at hfinding
      cases hd : d.complete with
      | ok r => simp [hd] at hfinding
      | error e =>
          simp only [hd, Finding.fault.injEq] at hfinding
          exact .inl ⟨line, hline, m, e, hm, hfinding⟩

/-- The fault of a run by itself drops it, noticed where the run was given up. -/
theorem Line.Segment.drops {limit : Nat} {segment after : List Line} {f : Fault}
    (h : Segment limit segment)
    (hf : .fault f ∈ (Reader.start.harvest limit segment).map
      (Finding.noticedAt (after.head?.map Line.number))) :
    ∃ first body, segment = first :: body ∧ first.beginsRun limit = true ∧
      (∀ line ∈ body, line.beginsRun limit = false) ∧
      (Reader.start.harvest limit segment).map
        (Finding.noticedAt (after.head?.map Line.number)) = [.fault f] ∧
      f.Drops limit first body after := by
  obtain ⟨first, body, opening, finding, rfl, -, -, hfound, verdict⟩ := h.verdict
  obtain ⟨_, _, hfirst, hbody⟩ := h
  rw [hfound] at hf ⊢
  have noticed := List.mem_singleton.mp hf
  refine ⟨first, body, rfl, hfirst, hbody, by rw [noticed]; rfl, ?_⟩
  cases finding with
  | record r => cases noticed
  | fault g =>
      rcases verdict.fault_cases with ⟨line, hline, m, e, hm, rfl⟩ | rfl
      · have kept : f = .ofShortfall line.number e := by
          cases e <;> exact Finding.fault.inj noticed
        have quiet := hbody line hline
        rw [Line.beginsRun, hm, Option.any_some] at quiet
        rw [kept]
        exact .shortfall hline hm quiet
      · obtain rfl := Finding.fault.inj noticed
        cases after with
        | nil =>
            have last : (body.map Line.number).getLastD first.number =
                (body.getLastD first).number := by
              rw [List.getLastD_map]
            rw [List.head?_nil, Option.map_none, Option.getD_none, last]
            exact .cutOff rfl
        | cons next rest => exact .interrupted rfl

namespace Reader

theorem mem_apart {limit : Nat} {segments : List (List Line)} {finding : Finding}
    (h : finding ∈ apart limit segments) :
    ∃ before segment after, segments = before ++ segment :: after ∧
      finding ∈ (start.harvest limit segment).map
        (Finding.noticedAt (Line.firstNumber after)) := by
  induction segments with
  | nil => cases h
  | cons segment rest ih =>
      rw [apart] at h
      rcases List.mem_append.mp h with hhere | hlater
      · exact ⟨[], segment, rest, rfl, hhere⟩
      · obtain ⟨before, other, after, rfl, hmem⟩ := ih hlater
        exact ⟨segment :: before, other, after, rfl, hmem⟩

/-- Every fault of a log is that of one of its runs, and drops it. -/
theorem harvest_drops {limit : Nat} {lines : List Line} {f : Fault}
    (h : .fault f ∈ start.harvest limit lines) :
    ∃ before first body after, lines = before ++ first :: (body ++ after) ∧
      first.beginsRun limit = true ∧ (∀ line ∈ body, line.beginsRun limit = false) ∧
      (∀ next ∈ after.head?, next.beginsRun limit = true) ∧
      (start.harvest limit (first :: body)).map
        (Finding.noticedAt (after.head?.map Line.number)) = [.fault f] ∧
      f.Drops limit first body after := by
  rw [harvest_eq_apart] at h
  obtain ⟨before, segment, after, hsegments, hmem⟩ := mem_apart h
  have shapes := Line.segments_shape limit lines
  have joined := Line.segments_join limit lines
  rw [hsegments] at shapes joined
  rw [List.forall_mem_append, List.forall_mem_cons] at shapes
  obtain ⟨-, shape, shapesAfter⟩ := shapes
  obtain ⟨first, body, rfl, hfirst, hbody, found, drops⟩ := shape.drops hmem
  refine ⟨(Line.segments limit lines).1 ++ before.flatten, first, body, after.flatten, ?_,
    hfirst, hbody, ?_, found, drops⟩
  · calc
      lines = (Line.segments limit lines).1 ++ (before ++ (first :: body) :: after).flatten :=
        joined.symm
      _ = (Line.segments limit lines).1 ++ before.flatten ++ first :: (body ++ after.flatten) := by
        simp
  · cases after with
    | nil => simp
    | cons following rest =>
        obtain ⟨next, _, hnext, -⟩ := shapesAfter following List.mem_cons_self
        simpa using hnext

end Reader

namespace Fault

variable {limit : Nat} {first : Line} {body after : List Line}

theorem Drops.line?_mem {f : Fault} (h : f.Drops limit first body after) :
    ∃ line ∈ first :: (body ++ after), f.line? = some line.number := by
  cases h with
  | shortfall hline =>
      exact ⟨_, List.mem_cons_of_mem _ (List.mem_append_left _ hline), line?_ofShortfall _ _⟩
  | @interrupted next rest hafter =>
      subst hafter
      exact ⟨next, by simp, rfl⟩
  | cutOff =>
      refine ⟨body.getLastD first, ?_, rfl⟩
      cases body with
      | nil => exact List.mem_cons_self
      | cons line rest =>
          have mem : (line :: rest).getLastD first ∈ line :: rest := by
            rw [List.getLastD_cons]
            exact List.getLastD_mem_cons
          exact List.mem_cons_of_mem _ (List.mem_append_left _ mem)

/-- A run that never ended is given up behind the line that began it, unless the log ends with
that line. -/
theorem Drops.started_lt {started line : Nat}
    (h : (unfinished started line).Drops limit first body after)
    (ascending : ((first :: (body ++ after)).map Line.number).Pairwise (· < ·)) :
    started < line ∨ started = line ∧ line = first.number ∧ body ++ after = [] := by
  rw [List.map_cons, List.pairwise_cons] at ascending
  have behind : ∀ l ∈ body ++ after, first.number < l.number :=
    fun l hl => ascending.1 l.number (List.mem_map_of_mem hl)
  generalize hf : unfinished started line = f at h
  cases h with
  | @shortfall _ _ e => cases e <;> cases hf
  | @interrupted next rest hafter =>
      cases hf
      exact .inl (behind next (by simp [hafter]))
  | cutOff hafter =>
      cases hf
      cases body with
      | nil => exact .inr ⟨rfl, rfl, by simp [hafter]⟩
      | cons l rest =>
          rw [List.getLastD_cons]
          exact .inl (behind _ (List.mem_append_left _ List.getLastD_mem_cons))

end Fault

namespace Outcome

/-- Every fault of a lenient reading is noticed at a line of the log, and drops one of its runs:
at a marker of the run, or else at the start of the next one or the end of the log. The lines
where faults are noticed never fall, and the lines that began the runs that never ended rise. -/
theorem faults_located (options : Options) (octets : Octets) :
    let limit := options.maxLineLength
    let lines := ((Source.ofOctets octets).buffered options.bufferSize).lines
    ∃ outcome, ofSource { options with strict := false } (.ofOctets octets) = .ok outcome ∧
      outcome.lines = lines.length ∧
      (∀ f ∈ outcome.faults, ∃ n, f.line? = some n ∧ 1 ≤ n ∧ n ≤ outcome.lines) ∧
      (outcome.faults.filterMap Fault.line?).Pairwise (· ≤ ·) ∧
      (outcome.faults.filterMap Fault.started?).Pairwise (· < ·) ∧
      (∀ started line, .unfinished started line ∈ outcome.faults →
        started < line ∨ started = line ∧ line = outcome.lines) ∧
      ∀ f ∈ outcome.faults, ∃ before first body after,
        lines = before ++ first :: (body ++ after) ∧ first.beginsRun limit = true ∧
        (∀ line ∈ body, line.beginsRun limit = false) ∧
        (∀ next ∈ after.head?, next.beginsRun limit = true) ∧
        (Reader.start.harvest limit (first :: body)).map
          (Finding.noticedAt (after.head?.map Line.number)) = [.fault f] ∧
        f.Drops limit first body after := by
  intro limit lines
  have ascending := ((Source.ofOctets octets).buffered options.bufferSize).lines_ascending
  have found : ∀ f ∈ (Reader.start.harvest limit lines).filterMap fault?,
      .fault f ∈ Reader.start.harvest limit lines := by
    intro f hf
    obtain ⟨finding, hmem, hfault⟩ := List.mem_filterMap.mp hf
    cases finding with
    | record r => cases hfault
    | fault g =>
        obtain rfl := Option.some.inj hfault
        exact hmem
  refine ⟨_, ofSource_lenient options octets, rfl, ?_, ?_, ?_, ?_, ?_⟩
  · intro f hf
    obtain ⟨before, first, body, after, hlines, -, -, -, -, drops⟩ :=
      Reader.harvest_drops (found f hf)
    obtain ⟨line, hmem, hline⟩ := drops.line?_mem
    have inLog : line ∈ lines := hlines ▸ List.mem_append_right before hmem
    exact ⟨line.number, hline, Source.number_bounds _ inLog⟩
  · rw [ofFindings, Finding.filterMap_line?]
    exact (Reader.harvest_ascending (ascending.imp Nat.le_of_lt) fun l _ => Nat.zero_le _).1
  · rw [ofFindings, Finding.filterMap_started?]
    refine List.Pairwise.sublist (Reader.started?_sublist limit lines) ?_
    exact ascending.sublist (List.filter_sublist.map _)
  · intro started line hf
    obtain ⟨before, first, body, after, hlines, -, -, -, -, drops⟩ :=
      Reader.harvest_drops (found _ hf)
    have rising : ((first :: (body ++ after)).map Line.number).Pairwise (· < ·) := by
      have inLog : List.Sublist (first :: (body ++ after)) lines := by
        rw [hlines]
        exact List.sublist_append_right before _
      exact ascending.sublist (inLog.map _)
    rcases drops.started_lt rising with hlt | ⟨heq, hfirst, hlast⟩
    · exact .inl hlt
    · have number := Source.number_eq hlines
      have length := congrArg List.length hlines
      rw [hlast, List.length_append, List.length_singleton] at length
      exact .inr ⟨heq, by rw [hfirst, number, ← length]; rfl⟩
  · exact fun f hf => Reader.harvest_drops (found f hf)

end Outcome

end RunLog
