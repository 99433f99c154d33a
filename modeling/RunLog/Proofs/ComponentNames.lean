import Mathlib
import RunLog.Proofs.DecimalTexts
import RunLog.Proofs.Dialects
import RunLog.Proofs.SummaryEntries

/-!
# What the components of a run are called

The line of a component names it by the value of `index`. This value is read like any
other, and the component goes by what a label shows of it then: a text stays as it is
written, but a number is written anew. So components with different index texts are taken
for one exactly if the texts read as one number (`Metric.shown_eq_iff`), and all of them
are found by their index texts exactly if a label shows each of these as it is written
(`Verdict.named`).
-/
namespace RunLog

namespace Metric

/-- A value as a label shows it, once it is read. -/
def shown (raw : Text) : Text :=
  (read raw).label

theorem shown_text {raw : Text} (trimmed : Text.trim raw = raw) (h : Decimal.read? raw = none) :
    shown raw = raw := by
  rw [shown, read, trimmed, h]
  rfl

theorem read?_shown {raw : Text} (trimmed : Text.trim raw = raw) :
    Decimal.read? (shown raw) = Decimal.read? raw := by
  cases h : Decimal.read? raw with
  | none => rw [shown_text trimmed h, h]
  | some x =>
      have number : shown raw = Decimal.plain x := by
        rw [shown, read, trimmed, h]
        rfl
      rw [number, Decimal.read?_plain]

/-- Different values are shown alike only if they read as one number. -/
theorem shown_eq_iff {a b : Text} (ha : Text.trim a = a) (hb : Text.trim b = b) :
    shown a = shown b ↔
      a = b ∨ ∃ x, Decimal.read? a = some x ∧ Decimal.read? b = some x := by
  constructor
  · intro same
    have reads : Decimal.read? a = Decimal.read? b := by
      rw [← read?_shown ha, same, read?_shown hb]
    cases h : Decimal.read? a with
    | none =>
        rw [shown_text ha h, shown_text hb (reads ▸ h)] at same
        exact .inl same
    | some x => exact .inr ⟨x, rfl, reads ▸ h⟩
  · rintro (rfl | ⟨x, hax, hbx⟩)
    · rfl
    · rw [shown, shown, read, read, ha, hb, hax, hbx]

end Metric

namespace Marker

/-- What the line of a component tells: the text that it gives as index, and its metrics. -/
def statistics? : Marker → Option (Text × Metrics)
  | .component raw =>
      match Metrics.read raw with
      | .ok metrics => (Metrics.written? "index".toList raw).map fun index => (index, metrics)
      | .error _ => none
  | _ => none

theorem component?_eq (m : Marker) :
    m.component? = m.statistics?.map (Prod.map Metric.shown id) := by
  cases m with
  | component raw =>
      simp only [component?, statistics?]
      cases h : Metrics.read raw with
      | error fault => rfl
      | ok metrics =>
          simp only [Metrics.get?_read h, Option.map_map]
          rfl
  | _ => rfl

theorem statistics?_index {m : Marker} {index : Text} {metrics : Metrics}
    (h : m.statistics? = some (index, metrics)) :
    Text.trim index = index ∧ metrics.get? "index".toList = some (Metric.read index) := by
  cases m with
  | component raw =>
      simp only [statistics?] at h
      cases hr : Metrics.read raw with
      | error fault => simp [hr] at h
      | ok read =>
          simp only [hr, Option.map_eq_some_iff, Prod.mk.injEq] at h
          obtain ⟨written, hw, rfl, rfl⟩ := h
          exact ⟨Metrics.trim_written? hw, by rw [Metrics.get?_read hr, hw, Option.map_some]⟩
  | _ => cases h

variable {α : Type} {tells : Marker → Option (Text × α)} {name : Text} {told : List Marker}

theorem lastOf_eq_some {a : α} (h : lastOf tells name told = some a) :
    ∃ m ∈ told, tells m = some (name, a) := by
  obtain ⟨m, hm, ha⟩ := last_eq_some h
  obtain ⟨entry, hentry, same⟩ := Option.bind_eq_some_iff.mp ha
  split_ifs at same with hname
  obtain rfl := Option.some.inj same
  exact ⟨m, hm, hname ▸ hentry⟩

theorem exists_lastOf {m : Marker} {a : α} (hm : m ∈ told) (h : tells m = some (name, a)) :
    ∃ b, lastOf tells name told = some b := by
  rw [← Option.ne_none_iff_exists']
  intro none
  have silent := last_eq_none.mp none m hm
  simp [h] at silent

theorem lastOf_congr {others : Marker → Option (Text × α)}
    (h : ∀ m ∈ told, tells m = others m) : lastOf tells name told = lastOf others name told := by
  induction told using List.reverseRecOn with
  | nil => rfl
  | append_singleton before m ih =>
      have same := h m (by simp)
      rw [lastOf_concat, lastOf_concat, same, ih fun n hn => h n (by simp [hn])]

end Marker

structure Record.Named (told : List Marker) (r : Record) : Prop where
  stated : ∀ raw, .component raw ∈ told →
    ∃ line, (Marker.component raw).statistics? = some line
  /-- Under a name stand the metrics of the last line whose index is shown as the name. -/
  kept : ∀ name, r.component? name =
    Marker.lastOf (fun m => m.statistics?.map (Prod.map Metric.shown id)) name told
  /-- An index that is no number is shown as it is written. -/
  verbatim : ∀ m ∈ told, ∀ line, m.statistics? = some line → Decimal.read? line.1 = none →
    Metric.shown line.1 = line.1
  /-- Lines of different indices replace each other only if these read as one number. -/
  apart : ∀ m ∈ told, ∀ n ∈ told, ∀ a b, m.statistics? = some a → n.statistics? = some b →
    (Metric.shown a.1 = Metric.shown b.1 ↔
      a.1 = b.1 ∨ ∃ x, Decimal.read? a.1 = some x ∧ Decimal.read? b.1 = some x)
  /-- The components are found by their indices exactly if all are shown as they are written. -/
  faithful : (∀ name, r.component? name = Marker.lastOf Marker.statistics? name told) ↔
    ∀ m ∈ told, ∀ line, m.statistics? = some line → Metric.shown line.1 = line.1

theorem Verdict.named {opening : Marker} {started last : Nat} {markers : List (Nat × Marker)}
    {r : Record} (h : Verdict opening started last markers (.record r)) (hkind : r.kind ≠ .micro) :
    r.Named (Marker.beforeEnd (markers.map Prod.snd)) := by
  obtain ⟨sound, d, m, hends, told, complete⟩ := h.recorded
  generalize Marker.beforeEnd (markers.map Prod.snd) = before at sound told
  have kept : ∀ name, r.component? name =
      Marker.lastOf (fun m => m.statistics?.map (Prod.map Metric.shown id)) name before := by
    intro name
    have nameless : m.component? = none := by cases m <;> first | rfl | cases hends
    rcases Draft.completeDetails_ok (Draft.complete_ok complete).details with
      ⟨-, details⟩ | ⟨micro, -⟩
    · rw [Record.component?, details]
      change d.components.get? name = _
      rw [told.components, Marker.lastOf_concat, nameless, Option.bind_none, Option.none_or]
      exact Marker.lastOf_congr fun m _ => m.component?_eq
    · exact absurd micro hkind
  refine ⟨fun raw hraw => ?_, kept, ?_, ?_, ?_, ?_⟩
  · obtain ⟨named, hnamed⟩ := Marker.component?_of_defect (sound _ hraw)
    rw [Marker.component?_eq] at hnamed
    obtain ⟨line, hline, -⟩ := Option.map_eq_some_iff.mp hnamed
    exact ⟨line, hline⟩
  · exact fun m _ line hline => Metric.shown_text (Marker.statistics?_index hline).1
  · exact fun m _ n _ a b ha hb =>
      Metric.shown_eq_iff (Marker.statistics?_index ha).1 (Marker.statistics?_index hb).1
  · -- The metrics that are found tell how the index of their line reads.
    intro found m hm line hline
    obtain ⟨metrics, last⟩ := Marker.exists_lastOf hm hline
    have shown := (kept line.1).symm.trans ((found line.1).trans last)
    obtain ⟨own, -, hown⟩ := Marker.lastOf_eq_some last
    obtain ⟨other, -, hother⟩ := Marker.lastOf_eq_some shown
    obtain ⟨⟨index, _⟩, horigin, same⟩ := Option.map_eq_some_iff.mp hother
    obtain ⟨name, rfl⟩ := Prod.mk.inj same
    have reads : Metric.read line.1 = Metric.read index := Option.some.inj
      ((Marker.statistics?_index hown).2.symm.trans (Marker.statistics?_index horigin).2)
    rw [Metric.shown, reads]
    exact name
  · intro plain name
    rw [kept]
    refine Marker.lastOf_congr fun m hm => ?_
    cases hline : m.statistics? with
    | none => rfl
    | some line => rw [Option.map_some, Prod.map, plain m hm line hline]; rfl

namespace Outcome

/-- However a log is read, its records are the findings of its runs, and the components of each
workload run are those that its lines tell, under the names that a label shows of their indices. -/
theorem records_named (options : Options) (source : Source) :
    let limit := options.maxLineLength
    let lines := (source.buffered options.bufferSize).lines
    let segments := (Line.segments limit lines).2
    (∀ outcome, ofSource options source = .ok outcome →
      outcome.records = (segments.flatMap (Reader.start.harvest limit)).filterMap record?) ∧
      ∀ segment ∈ segments, ∃ first body finding, segment = first :: body ∧
        Reader.start.harvest limit segment = [finding] ∧
        ∀ r, finding = .record r → r.kind ≠ .micro →
          r.Named (Marker.beforeEnd ((Line.markers limit body).map Prod.snd)) := by
  intro limit lines segments
  refine ⟨fun outcome houtcome => ?_, fun segment hsegment => ?_⟩
  · rw [ofSource_ok houtcome, ofFindings, Reader.harvest_eq_apart, Reader.apart_records,
      List.filterMap_flatMap]
  · obtain ⟨first, body, opening, finding, hshape, -, -, hfound, verdict⟩ :=
      (Line.segments_shape limit _ segment hsegment).verdict
    refine ⟨first, body, finding, hshape, hfound, ?_⟩
    rintro r rfl hkind
    exact verdict.named hkind

/-- A run of two components whose indices are written differently and read as one number. -/
def twinsLog : Text :=
  ("mem_allocator initialized!\nRunning YCSB workload\nRBT implementation treap\n" ++
    "running 2 threads\nPer-index stats: index=1.0, throughput=1\n" ++
    "Per-index stats: index=1, throughput=2\n[summary] throughput=1.5\n").toList

/-- Only the second one is left, and nothing is found under the index of the first one. -/
theorem twins_replaced : ∃ outcome r, ofSource .standard (.ofText twinsLog) = .ok outcome ∧
    outcome.records = [r] ∧ r.kind = .ycsb ∧
      (∃ line ∈ (Source.ofText twinsLog).lines, ∃ metrics,
        (line.marker? 1000000).bind Marker.statistics? = some ("1.0".toList, metrics)) ∧
      r.component? "1.0".toList = none := by
  have stated : ((Source.ofText twinsLog).lines.filterMap fun line =>
      ((line.marker? 1000000).bind Marker.statistics?).map Prod.fst) =
        ["1.0".toList, "1".toList] := by decide +kernel
  have made : (ofSource .standard (.ofText twinsLog)).toOption.map (fun outcome =>
      outcome.records.map fun r => (r.kind, (r.component? "1.0".toList).isNone)) =
        some [(.ycsb, true)] := by decide +kernel
  obtain ⟨line, hline, told⟩ := List.mem_filterMap.mp
    (show "1.0".toList ∈ _ from stated ▸ List.mem_cons_self)
  obtain ⟨⟨_, metrics⟩, hmetrics, rfl⟩ := Option.map_eq_some_iff.mp told
  cases h : ofSource .standard (.ofText twinsLog) with
  | error fault =>
      rw [h] at made
      cases made
  | ok outcome =>
      rw [h] at made
      obtain ⟨r, hr, same⟩ := List.map_eq_singleton_iff.mp (Option.some.inj made)
      obtain ⟨kind, missing⟩ := Prod.mk.inj same
      exact ⟨outcome, r, rfl, hr, kind, ⟨line, hline, metrics, hmetrics⟩,
        Option.isNone_iff_eq_none.mp missing⟩

end Outcome

end RunLog
