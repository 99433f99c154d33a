import RunLog.Log.Reader
import RunLog.Proofs.Lookups
import RunLog.Proofs.SummaryPairs

/-!
# What single markers say

Each field of a draft is told by one sort of marker, and each marker is read
here by itself, without a draft. A marker is defective when what it tells does
not convert. Noting a marker fails exactly when it is defective
(`note_defect`); otherwise every field keeps what it was, unless the marker
tells it (`note_noted`).
-/
namespace RunLog
namespace Marker

def kind? : Marker → Option Kind
  | .benchmark word => some (Kind.ofWord word)
  | _ => none

def schemaFile? : Marker → Option Text
  | .schema path => some path
  | _ => none

/-- The variant that a marker tells, whichever of the two signatures it gives. -/
def variant? : Marker → Option Variant
  | .indexType signature => some (Variant.read signature)
  | .implementation signature => some (Variant.read signature)
  | _ => none

def threads? : Marker → Option Nat
  | .threads raw => Decimal.readNatural? Decimal.wordLimit raw
  | _ => none

def throughput? : Marker → Option Float
  | .throughput raw => Decimal.read? raw
  | _ => none

/-- The component whose metrics a marker tells, under the name it gives as `index`. -/
def component? : Marker → Option (Text × Metrics)
  | .component raw =>
      match Metrics.read raw with
      | .ok metrics => (metrics.get? "index".toList).map fun name => (name.label, metrics)
      | .error _ => none
  | _ => none

def summary? : Marker → Option Metrics
  | .summary raw => (Metrics.read raw).toOption
  | _ => none

def finalSize? : Marker → Option Nat
  | .expectedSize raw => Decimal.readNatural? Decimal.sizeLimit raw
  | _ => none

def parameter? : Marker → Option (Text × Text)
  | .input key value => some (key, value)
  | _ => none

/-- What is wrong with a payload that is read to `value`, if it is read at all. -/
def unread? {α : Type} (field raw : Text) (value : Option α) : Option Shortfall :=
  match value with
  | some _ => none
  | none => some (.badValue field raw)

/-- What is wrong with a marker by itself. -/
def defect? (m : Marker) : Option Shortfall :=
  match m with
  | .threads raw => unread? "threads".toList raw m.threads?
  | .throughput raw => unread? "throughput".toList raw m.throughput?
  | .expectedSize raw => unread? "expected_final_size".toList raw m.finalSize?
  | .summary raw => (Metrics.badPair? raw).map (.badValue "summary".toList)
  | .component raw =>
      match Metrics.badPair? raw, m.component? with
      | some pair, _ => some (.badValue "summary".toList pair)
      | none, none => some (.missing "index".toList)
      | none, some _ => none
  | _ => none

theorem component?_of_defect {raw : Text} (h : (component raw).defect? = none) :
    ∃ named, (component raw).component? = some named := by
  simp only [defect?] at h
  split at h
  · cases h
  · cases h
  · rename_i named _ hnamed
    exact ⟨named, hnamed⟩

end Marker

namespace Draft

/-- The draft `after` is the draft `d` with what a marker tells, and nothing else. What a
marker does not tell is unchanged by definition. -/
structure Noted (d : Draft) (m : Marker) (after : Draft) : Prop where
  kind : after.kind = m.kind?.or d.kind := by rfl
  variant : after.variant = m.variant?.or d.variant := by rfl
  threads : after.threads = m.threads?.or d.threads := by rfl
  throughput : after.throughput = m.throughput?.or d.throughput := by rfl
  summary : after.summary = m.summary?.getD d.summary := by rfl
  schemaFile : after.schemaFile = m.schemaFile?.or d.schemaFile := by rfl
  components : after.components =
    (m.component?.map fun c => d.components.insert c.1 c.2).getD d.components := by rfl
  workloadMix : after.workloadMix = d.workloadMix := by rfl
  initialSize : after.initialSize = d.initialSize := by rfl
  expectedFinalSize : after.expectedFinalSize = m.finalSize?.or d.expectedFinalSize := by rfl
  inputs : after.inputs = d.inputs := by rfl

theorem convert_bad {α : Type} {field raw : Text} {read? : Text → Option α} {e : Shortfall}
    (h : Marker.unread? field raw (read? raw) = some e) :
    convert field raw read? = .error e := by
  unfold convert
  cases hr : read? raw with
  | some a => simp [Marker.unread?, hr] at h
  | none =>
      rw [hr] at h
      exact congrArg Except.error (Option.some.inj h)

theorem convert_ok {α : Type} {field raw : Text} {read? : Text → Option α}
    (h : Marker.unread? field raw (read? raw) = none) :
    ∃ a, read? raw = some a ∧ convert field raw read? = .ok a := by
  unfold convert
  cases hr : read? raw with
  | some a => exact ⟨a, rfl, rfl⟩
  | none => simp [Marker.unread?, hr] at h

theorem pairs_bad {raw pair : Text} (h : Metrics.badPair? raw = some pair) :
    pairs raw = .error (.badValue "summary".toList pair) := by
  rw [pairs, Metrics.read_eq_error h]
  rfl

theorem pairs_ok {raw : Text} {metrics : Metrics} (h : Metrics.read raw = .ok metrics) :
    pairs raw = .ok metrics := by
  rw [pairs, h]
  rfl

theorem note_component (d : Draft) {raw : Text} {metrics : Metrics}
    (h : Metrics.read raw = .ok metrics) :
    d.note (.component raw) =
      match (Marker.component raw).component? with
      | some c => .ok (d.withComponent c.1 c.2)
      | none => .error (.missing "index".toList) := by
  simp only [note, pairs_ok h, Marker.component?, h]
  change (componentName metrics >>= fun name => .ok (d.withComponent name metrics)) = _
  rw [componentName]
  cases metrics.get? "index".toList <;> rfl

/-- A defective marker is refused with its own shortfall, whatever the draft. -/
theorem note_defect (d : Draft) {m : Marker} {e : Shortfall} (h : m.defect? = some e) :
    d.note m = .error e := by
  cases m with
  | threads raw =>
      simp only [Marker.defect?, Marker.threads?] at h
      rw [note, convert_bad h]
      rfl
  | throughput raw =>
      simp only [Marker.defect?, Marker.throughput?] at h
      rw [note, convert_bad h]
      rfl
  | expectedSize raw =>
      simp only [Marker.defect?, Marker.finalSize?] at h
      rw [note, convert_bad h]
      rfl
  | summary raw =>
      obtain ⟨pair, hb, rfl⟩ := Option.map_eq_some_iff.mp h
      simp only [note, pairs_bad hb]
      rfl
  | component raw =>
      simp only [Marker.defect?] at h
      cases hb : Metrics.badPair? raw with
      | some pair =>
          simp only [hb, Option.some.injEq] at h
          simp only [note, pairs_bad hb, ← h]
          rfl
      | none =>
          obtain ⟨metrics, hm⟩ := Metrics.read_eq_ok hb
          rw [note_component d hm]
          cases hc : (Marker.component raw).component? with
          | some c => simp only [hb, hc, reduceCtorEq] at h
          | none =>
              simp only [hb, hc, Option.some.injEq] at h
              rw [← h]
  | _ => simp [Marker.defect?] at h

/-- Any other marker is noted, and tells what it tells. -/
theorem note_noted (d : Draft) {m : Marker} (h : m.defect? = none) :
    ∃ after, d.note m = .ok after ∧ Noted d m after := by
  cases m with
  | threads raw =>
      simp only [Marker.defect?, Marker.threads?] at h
      obtain ⟨n, hn, hc⟩ := convert_ok h
      refine ⟨{ d with threads := some n }, ?_, { threads := by rw [Marker.threads?, hn]; rfl }⟩
      rw [note, hc]
      rfl
  | throughput raw =>
      simp only [Marker.defect?, Marker.throughput?] at h
      obtain ⟨x, hx, hc⟩ := convert_ok h
      refine ⟨{ d with throughput := some x }, ?_,
        { throughput := by rw [Marker.throughput?, hx]; rfl }⟩
      rw [note, hc]
      rfl
  | expectedSize raw =>
      simp only [Marker.defect?, Marker.finalSize?] at h
      obtain ⟨n, hn, hc⟩ := convert_ok h
      refine ⟨{ d with expectedFinalSize := some n }, ?_,
        { expectedFinalSize := by rw [Marker.finalSize?, hn]; rfl }⟩
      rw [note, hc]
      rfl
  | summary raw =>
      obtain ⟨metrics, hm⟩ := Metrics.read_eq_ok (Option.map_eq_none_iff.mp h)
      have hs : (Marker.summary raw).summary? = some metrics := by
        rw [Marker.summary?, hm]
        rfl
      refine ⟨{ d with summary := metrics }, ?_, { summary := by rw [hs]; rfl }⟩
      simp only [note, pairs_ok hm]
      rfl
  | component raw =>
      simp only [Marker.defect?] at h
      cases hb : Metrics.badPair? raw with
      | some pair => simp only [hb, reduceCtorEq] at h
      | none =>
          obtain ⟨metrics, hm⟩ := Metrics.read_eq_ok hb
          cases hc : (Marker.component raw).component? with
          | none => simp only [hb, hc, reduceCtorEq] at h
          | some c =>
              refine ⟨d.withComponent c.1 c.2, ?_, { components := by rw [hc]; rfl }⟩
              rw [note_component d hm, hc]
  | _ => exact ⟨_, rfl, {}⟩

theorem note_ok {d after : Draft} {m : Marker} (h : d.note m = .ok after) :
    m.defect? = none ∧ d.Noted m after := by
  cases hdefect : m.defect? with
  | some e => cases (note_defect d hdefect).symm.trans h
  | none =>
      obtain ⟨other, hother, noted⟩ := note_noted d hdefect
      cases hother.symm.trans h
      exact ⟨rfl, noted⟩

end Draft

end RunLog
