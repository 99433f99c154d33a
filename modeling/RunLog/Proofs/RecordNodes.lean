import Mathlib
import RunLog.Proofs.JsonTexts
import RunLog.Report.Export

/-!
# The record behind a node

The node of a record holds all that the record does, except that a kind is only named in it.
So the nodes of two records are equal just if the records are, up to two kinds with one
name. With finite numbers the texts of nodes are as different as the nodes, and an export in
JSON is as good as the list of its records.
-/
namespace RunLog

def Metrics.numbers (metrics : Metrics) : List Float :=
  metrics.entries.filterMap (·.2.number?)

def Details.numbers : Details → List Float
  | .workload _ components => components.entries.flatMap fun entry => Metrics.numbers entry.2
  | .micro _ _ _ _ => []

namespace Record

def numbers (r : Record) : List Float :=
  r.throughput :: (Metrics.numbers r.summary ++ r.details.numbers ++ r.closeToMax.toList)

/-- The records are equal, except that their kinds need only have the same name. -/
def Alike (r q : Record) : Prop :=
  r.kind.name = q.kind.name ∧ { r with kind := q.kind } = q

end Record

namespace Node

section Injective

variable {α : Type} {node : α → Node}

theorem ofDictionary_injective (h : Function.Injective node) :
    Function.Injective (ofDictionary node) := by
  rintro ⟨entries, sorted⟩ ⟨others, sorted'⟩ same
  have pairs : Function.Injective fun entry : Text × α => (entry.1, node entry.2) :=
    Function.injective_id.prodMap h
  obtain rfl : entries = others := List.map_injective_iff.mpr pairs (mapping.inj same)
  rfl

theorem optional_text_injective : Function.Injective (optional text) := by
  rintro (_ | t) (_ | u) same <;> cases same <;> rfl

theorem ofMetric_injective : Function.Injective ofMetric := by
  rintro (x | t) (y | u) same <;> cases same <;> rfl

theorem ofVariant_injective : Function.Injective ofVariant := by
  rintro ⟨base, subtype⟩ ⟨base', subtype'⟩ same
  have parts : base = base' ∧ optional text subtype = optional text subtype' := by
    simpa [ofVariant, field] using same
  rw [parts.1, optional_text_injective parts.2]

theorem ofDetails_injective : Function.Injective ofDetails := by
  rintro (⟨file, components⟩ | ⟨mix, initial, final, inputs⟩)
    (⟨file', components'⟩ | ⟨mix', initial', final', inputs'⟩) same
  · have parts : optional text file = optional text file' ∧
        ofDictionary (ofDictionary ofMetric) components =
          ofDictionary (ofDictionary ofMetric) components' := by
      simpa [ofDetails, field] using same
    rw [optional_text_injective parts.1,
      ofDictionary_injective (ofDictionary_injective ofMetric_injective) parts.2]
  · simp [ofDetails, field] at same
  · simp [ofDetails, field] at same
  · have parts : mix = mix' ∧ initial = initial' ∧ final = final' ∧
        ofDictionary text inputs = ofDictionary text inputs' := by
      simpa [ofDetails, field] using same
    obtain ⟨rfl, rfl, rfl, parameters⟩ := parts
    rw [ofDictionary_injective (fun _ _ => text.inj) parameters]

theorem closenessFields_injective : Function.Injective closenessFields := by
  rintro (_ | x) (_ | y) same <;> cases same <;> rfl

/-- The node of a record tells the record, up to a kind with the same name. -/
theorem ofRecord_eq_iff {r q : Record} : ofRecord r = ofRecord q ↔ r.Alike q := by
  constructor
  · intro same
    obtain ⟨kind, variant, threads, throughput, summary, details, closeToMax⟩ := r
    obtain ⟨kind', variant', threads', throughput', summary', details', closeToMax'⟩ := q
    have parts : kind.name = kind'.name ∧ ofVariant variant = ofVariant variant' ∧
        threads = threads' ∧ throughput = throughput' ∧
        ofDictionary ofMetric summary = ofDictionary ofMetric summary' ∧
        ofDetails details = ofDetails details' ∧
        closenessFields closeToMax = closenessFields closeToMax' := by
      simpa [ofRecord, field] using same
    obtain ⟨name, variants, rfl, rfl, summaries, alike, closeness⟩ := parts
    obtain rfl := ofVariant_injective variants
    obtain rfl := ofDictionary_injective ofMetric_injective summaries
    obtain rfl := ofDetails_injective alike
    obtain rfl := closenessFields_injective closeness
    exact ⟨name, rfl⟩
  · rintro ⟨name, same⟩
    rw [← same]
    simp only [ofRecord, name]

theorem ofRecords_eq_iff {records others : List Record} :
    ofRecords records = ofRecords others ↔ List.Forall₂ Record.Alike records others := by
  rw [ofRecords, ofRecords, sequence.injEq, ← List.forall₂_eq_eq_eq, List.forall₂_map_left_iff,
    List.forall₂_map_right_iff]
  simp only [ofRecord_eq_iff]

end Injective

section Finite

theorem finite_ofDictionary {α : Type} {node : α → Node} {d : Dictionary α}
    (h : ∀ entry ∈ d.entries, (node entry.2).Finite) : (ofDictionary node d).Finite :=
  .mapping (List.forall_mem_map.mpr h)

theorem finite_optional_text (t : Option Text) : (optional text t).Finite := by
  cases t with
  | none => exact .null
  | some t => exact .text t

theorem finite_ofMetrics {metrics : Metrics}
    (h : ∀ x ∈ metrics.numbers, x.isFinite = true) : (ofDictionary ofMetric metrics).Finite := by
  refine finite_ofDictionary ?_
  rintro ⟨key, x | t⟩ hentry
  · exact .real (h x (List.mem_filterMap.mpr ⟨_, hentry, rfl⟩))
  · exact .text t

theorem finite_ofVariant (v : Variant) : (ofVariant v).Finite := by
  refine .mapping ?_
  simp only [field, List.forall_mem_cons]
  exact ⟨.text _, finite_optional_text _, by simp⟩

theorem finite_ofDetails {details : Details} (h : ∀ x ∈ details.numbers, x.isFinite = true) :
    (ofDetails details).Finite := by
  cases details with
  | workload file components =>
      have each : ∀ entry ∈ components.entries, (ofDictionary ofMetric entry.2).Finite :=
        fun entry hentry => finite_ofMetrics fun x hx =>
          h x (List.mem_flatMap.mpr ⟨entry, hentry, hx⟩)
      refine .mapping ?_
      simp only [field, List.forall_mem_cons]
      exact ⟨.text _, finite_optional_text _, finite_ofDictionary each, by simp⟩
  | micro mix initial final inputs =>
      refine .mapping ?_
      simp only [field, List.forall_mem_cons]
      exact ⟨.text _, .natural _, .natural _, .natural _,
        finite_ofDictionary fun _ _ => .text _, by simp⟩

theorem finite_ofRecord {r : Record} (h : ∀ x ∈ r.numbers, x.isFinite = true) :
    (ofRecord r).Finite := by
  simp only [Record.numbers, List.forall_mem_cons, List.forall_mem_append] at h
  obtain ⟨throughput, ⟨summary, details⟩, closeToMax⟩ := h
  have closeness : ∀ field ∈ closenessFields r.closeToMax, field.2.Finite := by
    cases hclose : r.closeToMax with
    | none => simp [closenessFields]
    | some x =>
        have finite : x.isFinite = true := closeToMax x (by simp [hclose])
        simpa [closenessFields, field] using Node.Finite.real finite
  refine .mapping (List.forall_mem_append.mpr ⟨?_, closeness⟩)
  simp only [field, List.forall_mem_cons]
  exact ⟨.text _, finite_ofVariant _, .natural _, .real throughput, finite_ofMetrics summary,
    finite_ofDetails details, by simp⟩

theorem finite_ofRecords {records : List Record}
    (h : ∀ r ∈ records, ∀ x ∈ r.numbers, x.isFinite = true) : (ofRecords records).Finite :=
  .sequence (List.forall_mem_map.mpr fun r hr => finite_ofRecord (h r hr))

end Finite

end Node

namespace Export

/-- With finite numbers, exports in JSON have one text just if their records are equal one by
one, up to kinds with one name. -/
theorem json_eq_iff {records others : List Record}
    (finite : ∀ r ∈ records, ∀ x ∈ r.numbers, x.isFinite = true)
    (finite' : ∀ r ∈ others, ∀ x ∈ r.numbers, x.isFinite = true) :
    render .json records = render .json others ↔ List.Forall₂ Record.Alike records others := by
  rw [← Node.ofRecords_eq_iff]
  constructor
  · intro same
    exact Json.document_injective (Node.finite_ofRecords finite) (Node.finite_ofRecords finite')
      (List.append_cancel_right same)
  · intro same
    rw [render, render, same]

def oneMetric (kind : Kind) (metric : Metric) : List Record :=
  [{ kind := kind
     variant := ⟨"treap".toList, none⟩
     threads := 8
     throughput := 1.5
     summary := Dictionary.insert ∅ "size".toList metric
     details := .workload none ∅
     closeToMax := none }]

theorem json_eq_iff_oneMetric :
    (∀ kind, ∀ r ∈ oneMetric kind (.number 1), ∀ x ∈ r.numbers, x.isFinite = true) ∧
    (∀ r ∈ oneMetric .tpcc (.text "1.0".toList), ∀ x ∈ r.numbers, x.isFinite = true) ∧
    render .json (oneMetric .tpcc (.number 1)) =
      render .json (oneMetric (.other "TPCC".toList) (.number 1)) ∧
    render .json (oneMetric .tpcc (.number 1)) ≠
      render .json (oneMetric .tpcc (.text "1.0".toList)) := by
  have throughput : (1.5 : Float).isFinite = true := by rfl
  have metric : (1 : Float).isFinite = true := by rfl
  have number (kind : Kind) :
      ∀ r ∈ oneMetric kind (.number 1), ∀ x ∈ r.numbers, x.isFinite = true := by
    intro r hr
    rw [List.mem_singleton.mp hr]
    exact List.forall_mem_cons.mpr ⟨throughput, List.forall_mem_singleton.mpr metric⟩
  have text : ∀ r ∈ oneMetric .tpcc (.text "1.0".toList), ∀ x ∈ r.numbers, x.isFinite = true := by
    intro r hr
    rw [List.mem_singleton.mp hr]
    exact List.forall_mem_singleton.mpr throughput
  refine ⟨number, text, ?_, ?_⟩
  · exact (json_eq_iff (number _) (number _)).mpr (.cons ⟨rfl, rfl⟩ .nil)
  · intro same
    cases (json_eq_iff (number _) text).mp same with
    | cons alike _ =>
        have summaries := congrArg (·.summary.entries.map (·.2.text?)) alike.2
        cases summaries

end Export
end RunLog
