import Mathlib
import RunLog.Proofs.DraftHistory

/-!
# What holds of every record

A record is made in one place, from a complete draft, whose checks give what
`Record.Valid` lists, whichever way the fields of the draft came about. A marker
files each component under the name that its metrics give (`NamedByIndex.note`), and
a draft begins without components, so the components of every draft that markers
tell are named (`Draft.Told.named`). Stores only gather records and measure them,
and neither property looks at what is measured.
-/
namespace RunLog

structure Record.Valid (r : Record) : Prop where
  threads : 1 ≤ r.threads
  finite : r.throughput.isFinite = true
  positive : 0 < r.throughput
  summary : r.summary.get? "throughput".toList = some (.number r.throughput)
  details : (∃ mix size final inputs, r.details = .micro mix size final inputs) ↔ r.kind = .micro

/-- Every entry stands under the label of its own `index`. -/
def NamedByIndex (components : Dictionary Metrics) : Prop :=
  ∀ name metrics, components.get? name = some metrics →
    ∃ index, metrics.get? "index".toList = some index ∧ index.label = name

/-- Every component of the record stands under the label of its own `index`. -/
def Record.ComponentsNamed (r : Record) : Prop :=
  ∀ name metrics, r.component? name = some metrics →
    ∃ index, metrics.get? "index".toList = some index ∧ index.label = name

theorem namedByIndex_empty : NamedByIndex ∅ := by
  intro name metrics h
  cases h

theorem NamedByIndex.insert {components : Dictionary Metrics} (h : NamedByIndex components)
    {metrics : Metrics} {index : Metric} (hindex : metrics.get? "index".toList = some index) :
    NamedByIndex (components.insert index.label metrics) := by
  intro name found hfound
  rw [Dictionary.get?_insert] at hfound
  split_ifs at hfound with hname
  · cases hfound
    exact ⟨index, hindex, hname.symm⟩
  · exact h name found hfound

theorem bind_ok {ε α β : Type} {first : Except ε α} {next : α → Except ε β} {b : β}
    (h : first >>= next = .ok b) : ∃ a, first = .ok a ∧ next a = .ok b := by
  cases first with
  | error e => cases h
  | ok a => exact ⟨a, rfl, h⟩

theorem Kind.isWorkload_iff {kind : Kind} : kind.isWorkload = true ↔ kind ≠ .micro := by
  cases kind <;> simp [Kind.isWorkload]

namespace Draft

theorem completeThreads_ok {d : Draft} {n : Nat} (h : d.completeThreads = .ok n) : 1 ≤ n := by
  unfold completeThreads at h
  split at h
  · cases h
  · split_ifs at h with hzero
    cases h
    exact Nat.one_le_iff_ne_zero.mpr hzero

theorem completeThroughput_ok {d : Draft} {x : Float} (h : d.completeThroughput = .ok x) :
    x.isFinite = true ∧ 0 < x := by
  unfold completeThroughput at h
  split at h
  · cases h
  · split_ifs at h with hsound
    cases h
    exact hsound

theorem completeDetails_ok {d : Draft} {kind : Kind} {details : Details}
    (h : d.completeDetails kind = .ok details) :
    (kind ≠ .micro ∧ details = .workload d.schemaFile d.components) ∨
      (kind = .micro ∧ ∃ mix size final, details = .micro mix size final d.inputs) := by
  unfold completeDetails at h
  split_ifs at h with hkind
  · cases h
    exact .inl ⟨Kind.isWorkload_iff.mp hkind, rfl⟩
  · obtain ⟨mix, -, h⟩ := bind_ok h
    obtain ⟨size, -, h⟩ := bind_ok h
    split at h
    · cases h
    · cases h
      exact .inr ⟨not_not.mp (mt Kind.isWorkload_iff.mpr hkind), mix, size, _, rfl⟩

structure Completes (d : Draft) (r : Record) : Prop where
  kind : d.kind = some r.kind
  threads : d.completeThreads = .ok r.threads
  variant : d.completeVariant = .ok r.variant
  throughput : d.completeThroughput = .ok r.throughput
  details : d.completeDetails r.kind = .ok r.details
  summary : r.summary = d.summary.insert "throughput".toList (.number r.throughput)
  unmeasured : r.closeToMax = none

theorem complete_ok {d : Draft} {r : Record} (h : d.complete = .ok r) : d.Completes r := by
  unfold complete at h
  split at h
  · cases h
  · rename_i kind hkind
    obtain ⟨threads, hthreads, h⟩ := bind_ok h
    obtain ⟨variant, hvariant, h⟩ := bind_ok h
    obtain ⟨throughput, hthroughput, h⟩ := bind_ok h
    obtain ⟨details, hdetails, h⟩ := bind_ok h
    cases h
    exact ⟨hkind, hthreads, hvariant, hthroughput, hdetails, rfl, rfl⟩

theorem complete_valid {d : Draft} {r : Record} (h : d.complete = .ok r) : r.Valid := by
  have completes := complete_ok h
  obtain ⟨finite, positive⟩ := completeThroughput_ok completes.throughput
  refine ⟨completeThreads_ok completes.threads, finite, positive, ?_, ?_⟩
  · rw [completes.summary, Dictionary.get?_insert, if_pos rfl]
  · rcases completeDetails_ok completes.details with ⟨hkind, hd⟩ | ⟨hkind, mix, size, final, hd⟩
    · simp [hd, hkind]
    · simp [hd, hkind]

theorem complete_componentsNamed {d : Draft} {r : Record} (named : NamedByIndex d.components)
    (h : d.complete = .ok r) : r.ComponentsNamed := by
  intro name metrics hfound
  unfold Record.component? at hfound
  rcases completeDetails_ok (complete_ok h).details with ⟨-, hd⟩ | ⟨-, mix, size, final, hd⟩
  · rw [hd] at hfound
    exact named name metrics hfound
  · rw [hd] at hfound
    cases hfound

end Draft

theorem Marker.component?_index {m : Marker} {name : Text} {metrics : Metrics}
    (h : m.component? = some (name, metrics)) :
    ∃ index, metrics.get? "index".toList = some index ∧ index.label = name := by
  unfold Marker.component? at h
  split at h
  · split at h
    · obtain ⟨index, hindex, heq⟩ := Option.map_eq_some_iff.mp h
      cases heq
      exact ⟨index, hindex, rfl⟩
    · cases h
  · cases h

theorem NamedByIndex.note {d after : Draft} {m : Marker} (h : NamedByIndex d.components)
    (hnote : d.note m = .ok after) : NamedByIndex after.components := by
  obtain ⟨-, noted⟩ := Draft.note_ok hnote
  rw [noted.components]
  cases hc : m.component? with
  | none => exact h
  | some c =>
      obtain ⟨index, hindex, hlabel⟩ := Marker.component?_index hc
      rw [Option.map_some, Option.getD_some, ← hlabel]
      exact h.insert hindex

/-- However a draft was put together, its components are named. -/
theorem Draft.Told.named {said : Marker → Prop} {d : Draft} (h : d.Told said) :
    NamedByIndex d.components := by
  induction h with
  | empty => exact namedByIndex_empty
  | micro => exact namedByIndex_empty
  | input _ _ ih => exact ih
  | note _ _ hnote ih => exact ih.note hnote

namespace Record

theorem valid_unmeasured {r : Record} : r.unmeasured.Valid ↔ r.Valid :=
  ⟨fun h => ⟨h.threads, h.finite, h.positive, h.summary, h.details⟩,
    fun h => ⟨h.threads, h.finite, h.positive, h.summary, h.details⟩⟩

end Record

namespace Request
variable {options : Options}

theorem records_drafted {name : Text} {source : Source} {r : Record}
    (hr : r ∈ (ingest name source).records options) :
    ∃ d : Draft, NamedByIndex d.components ∧ d.complete = .ok r := by
  obtain ⟨outcome, found, hmem⟩ := parsed_of_ingest hr
  obtain ⟨d, told, complete⟩ := Outcome.ofSource_told found hmem
  exact ⟨d, told.named, complete⟩

theorem records_valid {request : Request}
    (built : ∀ r, request = .push r → ∃ d : Draft, d.complete = .ok r) :
    ∀ r ∈ request.records options, r.Valid := by
  intro r hr
  cases request with
  | ingest name source =>
      obtain ⟨d, -, hd⟩ := records_drafted hr
      exact Draft.complete_valid hd
  | push pushed =>
      obtain rfl := List.mem_singleton.mp hr
      obtain ⟨d, hd⟩ := built r rfl
      exact Draft.complete_valid hd
  | annotate => cases hr

end Request

namespace Store

/-- Records that grew by requests can be cut into what each request brought. -/
theorem exists_parts {options : Options} {requests : List Request} {records : List Record}
    (h : records.map Record.unmeasured =
      (requests.flatMap (Request.records options)).map Record.unmeasured) :
    ∃ parts : List (List Record), records = parts.flatten ∧
      List.Forall₂ (fun request part => part.map Record.unmeasured =
        (Request.records options request).map Record.unmeasured) requests parts := by
  induction requests generalizing records with
  | nil => exact ⟨[], List.map_eq_nil_iff.mp h, .nil⟩
  | cons request rest ih =>
      rw [List.flatMap_cons, List.map_append] at h
      obtain ⟨part, later, rfl, hpart, hlater⟩ := List.map_eq_append_iff.mp h
      obtain ⟨parts, rfl, hparts⟩ := ih hlater
      exact ⟨part :: parts, rfl, .cons hpart hparts⟩

/-- Whatever is asked of an empty store, as long as only records of complete drafts are pushed,
all of its records are valid, and those that come from a source have their components named by
their own metrics: the records are those of the requests, one part for each. -/
theorem every_record_valid (options : Options) (requests : List Request)
    (built : ∀ r, .push r ∈ requests → ∃ d : Draft, d.complete = .ok r) :
    let last := ((empty options).performAll requests).1
    (∀ r ∈ last.records, r.Valid) ∧
    ∃ parts : List (List Record), last.records = parts.flatten ∧
      List.Forall₂ (fun request part =>
        part.map Record.unmeasured =
            (Request.records options request).map Record.unmeasured ∧
          ((∃ name source, request = .ingest name source) → ∀ r ∈ part, r.ComponentsNamed))
        requests parts := by
  intro last
  have same := (Grown.performAll (empty options) requests).records
  refine ⟨Record.forall_of_unmeasured Record.valid_unmeasured same fun r hr => ?_, ?_⟩
  · obtain ⟨request, hrequest, hr⟩ := List.mem_flatMap.mp hr
    exact Request.records_valid (fun pushed h => built pushed (h ▸ hrequest)) r hr
  · obtain ⟨parts, hflat, hparts⟩ := exists_parts same
    refine ⟨parts, hflat, hparts.imp fun request part hpart => ⟨hpart, ?_⟩⟩
    rintro ⟨name, source, rfl⟩
    refine Record.forall_of_unmeasured Iff.rfl hpart fun r hr => ?_
    obtain ⟨d, named, hd⟩ := Request.records_drafted hr
    exact Draft.complete_componentsNamed named hd

/-- A draft that states all that is asked of a workload run. -/
def statedDraft : Draft :=
  { Draft.empty with
    kind := some .tpcc
    variant := some ⟨"treap".toList, none⟩
    threads := some 4
    throughput := some 2 }

/-- A log of one run, with a component whose index is a number that is written at length. -/
def componentLog : Source :=
  .ofText ("mem_allocator initialized!\nRunning YCSB workload\nRBT implementation treap\n" ++
    "running 2 threads\nPer-index stats: index=1.50, throughput=1\n" ++
    "[summary] throughput=1.5\n").toList

theorem every_record_valid_statedDraft : ∃ r, statedDraft.complete = .ok r ∧
    let requests := [.ingest "a.log".toList componentLog, .push r, .annotate]
    let last := ((empty .standard).performAll requests).1
    (∀ pushed, .push pushed ∈ requests → ∃ d : Draft, d.complete = .ok pushed) ∧
      last.records.length = 2 ∧ (∀ kept ∈ last.records, kept.Valid) ∧
      ∃ read later, last.records = read :: later ∧ read.ComponentsNamed ∧
        (read.component? "1.5".toList).isSome = true := by
  have complete : ∃ r, statedDraft.complete = .ok r := ⟨_, rfl⟩
  obtain ⟨r, hr⟩ := complete
  refine ⟨r, hr, ?_⟩
  intro requests last
  have built : ∀ pushed, .push pushed ∈ requests → ∃ d : Draft, d.complete = .ok pushed := by
    intro pushed hpushed
    simp only [requests, List.mem_cons, List.not_mem_nil, Request.push.injEq, reduceCtorEq,
      false_or, or_false] at hpushed
    exact ⟨statedDraft, hpushed ▸ hr⟩
  let shown (r : Record) : Bool := (r.component? "1.5".toList).isSome
  have found : (Request.records .standard (.ingest "a.log".toList componentLog)).map shown =
      [true] := by decide +kernel
  have one : (Request.records .standard (.ingest "a.log".toList componentLog)).length = 1 := by
    rw [← List.length_map shown, found]
    rfl
  have counted : last.records.length = (requests.flatMap (Request.records .standard)).length := by
    have grown := congrArg List.length (Grown.performAll (empty .standard) requests).records
    rw [List.length_map, List.length_append, List.length_map, List.length_map] at grown
    exact grown.trans (Nat.zero_add _)
  obtain ⟨valid, parts, flat, matched⟩ := every_record_valid .standard requests built
  obtain ⟨read, rest, ⟨same, named⟩, -, rfl⟩ := List.forall₂_cons_left_iff.mp matched
  have holds : read.map shown = [true] := by
    have alike := congrArg (List.map shown) same
    rw [List.map_map, List.map_map] at alike
    exact alike.trans found
  obtain ⟨first, rfl, has⟩ := List.map_eq_singleton_iff.mp holds
  refine ⟨built, ?_, valid, first, rest.flatten, flat, ?_, has⟩
  · rw [counted, List.flatMap_cons, List.length_append, one]
    rfl
  · exact named ⟨_, _, rfl⟩ first (List.mem_singleton_self first)

end Store
end RunLog
