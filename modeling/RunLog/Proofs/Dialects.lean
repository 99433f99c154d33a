import RunLog.Proofs.RecordValidity
import RunLog.Proofs.RunReading

/-!
# Which sort of benchmark a run is taken for

A run that opens with its input parameters is one of the micro benchmark, as long
as no line before its end announces a workload. Such a line is believed in any
run, and turns a micro run into one of a workload: its parameters and sizes are
lost then. The other way round nothing can happen, since no announcement names the
micro benchmark. So the kind of a record, and with it the sort of its details,
is read off the opening and the announcements (`Verdict.dialect`).
-/
namespace RunLog

theorem Kind.ofWord_ne_micro (word : Text) : ofWord word ≠ .micro := by
  unfold ofWord
  split_ifs <;> exact Kind.noConfusion

namespace Marker

theorem kind?_ne_micro {m : Marker} {kind : Kind} (h : m.kind? = some kind) : kind ≠ .micro := by
  cases m with
  | benchmark word =>
      cases h
      exact Kind.ofWord_ne_micro word
  | _ => cases h

theorem kind?_of_endsRun {m : Marker} (h : m.endsRun = true) : m.kind? = none := by
  cases m <;> first | rfl | cases h

theorem last_eq_some {α : Type} {tells : Marker → Option α} {told : List Marker} {a : α}
    (h : last tells told = some a) : ∃ m ∈ told, tells m = some a := by
  obtain ⟨m, hm, ha⟩ := List.exists_of_findSome?_eq_some h
  exact ⟨m, List.mem_reverse.mp hm, ha⟩

theorem last_eq_none {α : Type} {tells : Marker → Option α} {told : List Marker} :
    last tells told = none ↔ ∀ m ∈ told, tells m = none := by
  rw [last, List.findSome?_eq_none_iff]
  simp only [List.mem_reverse]

/-- What is told before the first marker that ends a run. -/
def beforeEnd (told : List Marker) : List Marker :=
  told.takeWhile fun m => !m.endsRun

end Marker

structure Record.Dialect (opening : Marker) (told : List Marker) (r : Record) : Prop where
  micro : r.kind = .micro ↔ opening = .inputsStart ∧ ∀ m ∈ told, m.kind? = none
  announced : r.kind ≠ .micro → Marker.last Marker.kind? told = some r.kind
  microDetails : r.kind = .micro → ∃ mix size final inputs,
    r.details = .micro mix size final inputs ∧ ∀ key, inputs.get? key =
      Marker.lastOf Marker.parameter? key (Marker.block opening told)
  workloadDetails : r.kind ≠ .micro → ∃ components,
    r.details = .workload (Marker.last Marker.schemaFile? told) components

theorem Finding.ofDraft_record {number : Nat} {d : Draft} {r : Record}
    (h : Finding.record r = ofDraft number d) : d.complete = .ok r := by
  unfold ofDraft at h
  split at h
  · cases h
    assumption
  · cases h

/-- The kind of a complete draft is the one announced last, or else that of its opening. -/
theorem Draft.ToldBy.dialect {d : Draft} {opening m : Marker} {told : List Marker} {r : Record}
    (h : d.ToldBy opening (told ++ [m])) (hm : m.endsRun = true) (hr : d.complete = .ok r) :
    r.Dialect opening told := by
  have parameterless : m.parameter? = none := by cases m <;> first | rfl | cases hm
  have schemaless : m.schemaFile? = none := by cases m <;> first | rfl | cases hm
  have kind : some r.kind = (Marker.last Marker.kind? told).or
      (if opening = .inputsStart then some .micro else none) := by
    rw [← (complete_ok hr).kind, h.kind, Marker.last_concat, Marker.kind?_of_endsRun hm,
      Option.none_or]
  have schema : d.schemaFile = Marker.last Marker.schemaFile? told := by
    rw [h.schemaFile, Marker.last_concat, schemaless, Option.none_or]
  have inputs : ∀ key, d.inputs.get? key =
      Marker.lastOf Marker.parameter? key (Marker.block opening told) := by
    intro key
    rw [h.inputs, Marker.block_concat, parameterless, Option.isSome_none, Bool.and_false]
    rfl
  have details := completeDetails_ok (complete_ok hr).details
  refine ⟨?_, ?_, ?_, ?_⟩
  · cases hlast : Marker.last Marker.kind? told with
    | some announced =>
        obtain ⟨speaker, hspeaker, htells⟩ := Marker.last_eq_some hlast
        rw [hlast, Option.some_or, Option.some.injEq] at kind
        refine ⟨fun hmicro => absurd (kind ▸ hmicro) (Marker.kind?_ne_micro htells), ?_⟩
        rintro ⟨-, silent⟩
        cases htells.symm.trans (silent speaker hspeaker)
    | none =>
        rw [hlast, Option.none_or] at kind
        split_ifs at kind with hopening
        exact ⟨fun _ => ⟨hopening, Marker.last_eq_none.mp hlast⟩, fun _ => Option.some.inj kind⟩
  · intro hkind
    cases hlast : Marker.last Marker.kind? told with
    | some announced => rw [kind, hlast, Option.some_or]
    | none =>
        rw [hlast, Option.none_or] at kind
        split_ifs at kind
        exact absurd (Option.some.inj kind) hkind
  · intro hkind
    rcases details with ⟨hne, -⟩ | ⟨-, mix, size, final, heq⟩
    · exact absurd hkind hne
    · exact ⟨mix, size, final, d.inputs, heq, inputs⟩
  · intro hkind
    rcases details with ⟨-, heq⟩ | ⟨hmicro, -⟩
    · exact ⟨d.components, heq.trans (by rw [schema])⟩
    · exact absurd hmicro hkind

/-- A run that gives a record has no defective marker before its end, and the record is that of
the draft which holds what is told up to there. -/
theorem Verdict.recorded {opening : Marker} {started last : Nat} {markers : List (Nat × Marker)}
    {r : Record} (h : Verdict opening started last markers (.record r)) :
    (∀ m ∈ Marker.beforeEnd (markers.map Prod.snd), m.defect? = none) ∧
      ∃ (d : Draft) (m : Marker), m.endsRun = true ∧
        d.ToldBy opening (Marker.beforeEnd (markers.map Prod.snd) ++ [m]) ∧
        d.complete = .ok r := by
  generalize hfinding : Finding.record r = finding at h
  cases h with
  | unfinished => cases hfinding
  | defect => cases hfinding
  | @ended before after number m d hmarkers hbefore _ hends told =>
      have running : ∀ x ∈ before.map Prod.snd, x.defect? = none ∧ x.endsRun = false := by
        intro x hx
        obtain ⟨marker, hmem, rfl⟩ := List.mem_map.mp hx
        have quiet := hbefore marker hmem
        rw [Marker.decides, Bool.or_eq_false_iff, Option.isSome_eq_false_iff,
          Option.isNone_iff_eq_none] at quiet
        exact quiet
      have told_before : Marker.beforeEnd (markers.map Prod.snd) = before.map Prod.snd := by
        rw [Marker.beforeEnd, hmarkers, List.map_append, List.map_cons,
          List.takeWhile_append_of_pos fun x hx => by simp [(running x hx).2]]
        simp [hends]
      rw [told_before]
      exact ⟨fun x hx => (running x hx).1, d, m, hends, told, Finding.ofDraft_record hfinding⟩

theorem Verdict.dialect {opening : Marker} {started last : Nat} {markers : List (Nat × Marker)}
    {r : Record} (h : Verdict opening started last markers (.record r)) :
    r.Dialect opening (Marker.beforeEnd (markers.map Prod.snd)) := by
  obtain ⟨-, d, m, hends, told, complete⟩ := h.recorded
  exact told.dialect hends complete

/-- A run by itself brings to light one finding, which is its verdict. -/
theorem Line.Segment.verdict {limit : Nat} {segment : List Line} (h : Segment limit segment) :
    ∃ first body opening finding, segment = first :: body ∧
      first.marker? limit = some opening ∧ opening.startsRun = true ∧
      Reader.start.harvest limit segment = [finding] ∧
      Verdict opening first.number ((body.map Line.number).getLastD first.number)
        (Line.markers limit body) finding := by
  obtain ⟨first, body, hfirst, hbody⟩ := h
  obtain ⟨opening, hmarker, hopening⟩ := Line.beginsRun_iff.mp hfirst
  have opened : ((Reader.start.pass first).openRun first.number opening).Collects opening
      first.number [] :=
    ⟨by simp [Reader.openRun], rfl, Draft.ToldBy.opened opening,
      by simp [Reader.openRun, Marker.inBlock]⟩
  obtain ⟨finding, hfound, verdict⟩ := Reader.Collects.harvest [] opened (by simp) hbody
  refine ⟨first, body, opening, finding, rfl, hmarker, hopening, ?_, verdict⟩
  rw [Reader.harvest_cons, Reader.step_eq, hmarker]
  simp only [Reader.mark, hopening, if_true]
  exact hfound

namespace Outcome

/-- Every record of a log is the one finding of one of its runs. It is a record of the micro
benchmark exactly if the run opens with its input parameters and announces no workload before
its end; otherwise its kind is the workload announced last. The details are of the sort of the
kind. -/
theorem records_dialect (options : Options) (octets : Octets) :
    let limit := options.maxLineLength
    let lines := ((Source.ofOctets octets).buffered options.bufferSize).lines
    let segments := (Line.segments limit lines).2
    ∃ outcome, ofSource { options with strict := false } (.ofOctets octets) = .ok outcome ∧
      outcome.records = (segments.flatMap (Reader.start.harvest limit)).filterMap record? ∧
      ∀ segment ∈ segments, ∃ first body opening finding, segment = first :: body ∧
        first.marker? limit = some opening ∧ opening.startsRun = true ∧
        Reader.start.harvest limit segment = [finding] ∧ ∀ r, finding = .record r →
          r.Dialect opening (Marker.beforeEnd ((Line.markers limit body).map Prod.snd)) := by
  intro limit lines segments
  refine ⟨_, ofSource_lenient options octets, ?_, fun segment hsegment => ?_⟩
  · rw [ofFindings, Reader.harvest_eq_apart, Reader.apart_records, List.filterMap_flatMap]
  · obtain ⟨first, body, opening, finding, hshape, hmarker, hopening, hfound, verdict⟩ :=
      (Line.segments_shape limit _ segment hsegment).verdict
    refine ⟨first, body, opening, finding, hshape, hmarker, hopening, hfound, ?_⟩
    rintro r rfl
    exact verdict.dialect

/-- A micro run with a line that announces a workload behind its parameters. -/
def overtakenLog : Text :=
  ("Inputs:\nnum_threads: 2\nlookup_frac: 50\ninit_tree_size: 10\nds_name: treap\n\n" ++
    "Running YCSB workload\nThroughput(Ops/usec): 1.5\nExpected size of MAP: 10\n").toList

/-- The line is believed, and the record has neither the kind nor the details of its opening. -/
theorem overtaken_by_workload : ∃ outcome r,
    ofSource .standard (.ofText overtakenLog) = .ok outcome ∧ outcome.records = [r] ∧
      ((Source.ofText overtakenLog).lines.head?.bind (Line.marker? 1000000)) =
        some .inputsStart ∧
      r.kind = .ycsb ∧ r.details = .workload none ∅ := by
  have lines : (Source.ofText overtakenLog).lines =
      [⟨1, "Inputs:".toList⟩, ⟨2, "num_threads: 2".toList⟩, ⟨3, "lookup_frac: 50".toList⟩,
        ⟨4, "init_tree_size: 10".toList⟩, ⟨5, "ds_name: treap".toList⟩, ⟨6, []⟩,
        ⟨7, "Running YCSB workload".toList⟩, ⟨8, "Throughput(Ops/usec): 1.5".toList⟩,
        ⟨9, "Expected size of MAP: 10".toList⟩] := by cbv
  rw [ofSource_of_pos (by decide), lines]
  refine ⟨_, _, rfl, rfl, ?_, rfl, rfl⟩
  rfl

end Outcome
end RunLog
