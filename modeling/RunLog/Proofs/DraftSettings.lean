import Mathlib
import RunLog.Proofs.RecordValidity
import RunLog.Proofs.Requirements

/-!
# Drafts that are set field by field

A draft is put together by settings, each of a field, of the metrics of one component or
of one input parameter. A setting replaces what was set in its place and touches nothing
else (`Draft.held?_set`), so a draft holds the last setting of each place, in whatever
order and however often they were made. What becomes of it is told by its requirements.

Every draft of a log is put together in this way (`Draft.Told.exists_settings`).
-/
namespace RunLog

inductive Setting where
  | kind (kind : Kind)
  | variant (variant : Variant)
  | threads (n : Nat)
  | throughput (x : Float)
  | summary (metrics : Metrics)
  | schemaFile (path : Text)
  | component (name : Text) (metrics : Metrics)
  | workloadMix (n : Nat)
  | initialSize (n : Nat)
  | expectedFinalSize (n : Nat)
  | input (key value : Text)

/-- The places of a draft: its fields, components and input parameters. -/
inductive Setting.Place where
  | kind
  | variant
  | threads
  | throughput
  | summary
  | schemaFile
  | component (name : Text)
  | workloadMix
  | initialSize
  | expectedFinalSize
  | input (key : Text)
  deriving DecidableEq

namespace Setting

def place : Setting → Place
  | .kind _ => .kind
  | .variant _ => .variant
  | .threads _ => .threads
  | .throughput _ => .throughput
  | .summary _ => .summary
  | .schemaFile _ => .schemaFile
  | .component name _ => .component name
  | .workloadMix _ => .workloadMix
  | .initialSize _ => .initialSize
  | .expectedFinalSize _ => .expectedFinalSize
  | .input key _ => .input key

/-- The last setting of a place. -/
def last? (place : Place) (settings : List Setting) : Option Setting :=
  settings.reverse.find? (·.place = place)

theorem last?_concat (place : Place) (settings : List Setting) (s : Setting) :
    last? place (settings ++ [s]) =
      if s.place = place then some s else last? place settings := by
  rw [last?, List.reverse_append, List.reverse_singleton, List.singleton_append,
    List.find?_cons]
  by_cases h : s.place = place <;> simp [h, last?]

end Setting

namespace Draft

def set (d : Draft) : Setting → Draft
  | .kind kind => { d with kind := some kind }
  | .variant variant => { d with variant := some variant }
  | .threads n => { d with threads := some n }
  | .throughput x => { d with throughput := some x }
  | .summary metrics => { d with summary := metrics }
  | .schemaFile path => { d with schemaFile := some path }
  | .component name metrics => d.withComponent name metrics
  | .workloadMix n => { d with workloadMix := some n }
  | .initialSize n => { d with initialSize := some n }
  | .expectedFinalSize n => { d with expectedFinalSize := some n }
  | .input key value => d.withInput key value

def ofSettings (settings : List Setting) : Draft :=
  settings.foldl set empty

/-- What a draft holds in a place, as the setting of it. A summary is always there. -/
def held? (d : Draft) : Setting.Place → Option Setting
  | .kind => d.kind.map .kind
  | .variant => d.variant.map .variant
  | .threads => d.threads.map .threads
  | .throughput => d.throughput.map .throughput
  | .summary => some (.summary d.summary)
  | .schemaFile => d.schemaFile.map .schemaFile
  | .component name => (d.components.get? name).map (.component name)
  | .workloadMix => d.workloadMix.map .workloadMix
  | .initialSize => d.initialSize.map .initialSize
  | .expectedFinalSize => d.expectedFinalSize.map .expectedFinalSize
  | .input key => (d.inputs.get? key).map (.input key)

theorem held?_set (d : Draft) (s : Setting) (place : Setting.Place) :
    (d.set s).held? place = if s.place = place then some s else d.held? place := by
  cases s with
  | component name metrics =>
      cases place with
      | component other =>
          simp only [set, withComponent, held?, Dictionary.get?_insert, Setting.place,
            Setting.Place.component.injEq, @eq_comm _ name]
          split_ifs with h
          · rw [h, Option.map_some]
          · rfl
      | _ => rfl
  | input key value =>
      cases place with
      | input other =>
          simp only [set, withInput, held?, Dictionary.get?_insert, Setting.place,
            Setting.Place.input.injEq, @eq_comm _ key]
          split_ifs with h
          · rw [h, Option.map_some]
          · rfl
      | _ => rfl
  | _ => cases place <;> rfl

/-- A draft is known by what it holds. -/
theorem ext_held? {d e : Draft} (h : ∀ place, d.held? place = e.held? place) : d = e := by
  have same {α : Type} {f : α → Setting} (injective : ∀ a b, f a = f b → a = b)
      {a b : Option α} (h : a.map f = b.map f) : a = b :=
    Option.map_injective (fun a b => injective a b) h
  have kind : d.kind = e.kind := same (fun _ _ => Setting.kind.inj) (h .kind)
  have variant : d.variant = e.variant := same (fun _ _ => Setting.variant.inj) (h .variant)
  have threads : d.threads = e.threads := same (fun _ _ => Setting.threads.inj) (h .threads)
  have throughput : d.throughput = e.throughput :=
    same (fun _ _ => Setting.throughput.inj) (h .throughput)
  have summary : d.summary = e.summary := Setting.summary.inj (Option.some.inj (h .summary))
  have schemaFile : d.schemaFile = e.schemaFile :=
    same (fun _ _ => Setting.schemaFile.inj) (h .schemaFile)
  have components : d.components = e.components := Dictionary.ext_get? fun name =>
    same (fun _ _ he => (Setting.component.inj he).2) (h (.component name))
  have workloadMix : d.workloadMix = e.workloadMix :=
    same (fun _ _ => Setting.workloadMix.inj) (h .workloadMix)
  have initialSize : d.initialSize = e.initialSize :=
    same (fun _ _ => Setting.initialSize.inj) (h .initialSize)
  have expectedFinalSize : d.expectedFinalSize = e.expectedFinalSize :=
    same (fun _ _ => Setting.expectedFinalSize.inj) (h .expectedFinalSize)
  have inputs : d.inputs = e.inputs := Dictionary.ext_get? fun key =>
    same (fun _ _ he => (Setting.input.inj he).2) (h (.input key))
  cases d
  cases e
  simp only [Draft.mk.injEq]
  exact ⟨kind, variant, threads, throughput, summary, schemaFile, components, workloadMix,
    initialSize, expectedFinalSize, inputs⟩

theorem ofSettings_concat (settings : List Setting) (s : Setting) :
    ofSettings (settings ++ [s]) = (ofSettings settings).set s := by
  rw [ofSettings, List.foldl_append]
  rfl

/-- A draft holds the last setting of each place. -/
theorem held?_ofSettings (settings : List Setting) (place : Setting.Place) :
    (ofSettings settings).held? place =
      (Setting.last? place settings).or (empty.held? place) := by
  induction settings using List.reverseRecOn with
  | nil => rfl
  | append_singleton settings s ih =>
      rw [ofSettings_concat, held?_set, Setting.last?_concat, ih]
      split_ifs <;> rfl

theorem note_set {d after : Draft} {m : Marker} (h : d.note m = .ok after) :
    after = d ∨ ∃ s, after = d.set s := by
  cases m with
  | benchmark word =>
      cases h
      exact .inr ⟨.kind (Kind.ofWord word), rfl⟩
  | schema path =>
      cases h
      exact .inr ⟨.schemaFile path, rfl⟩
  | indexType signature =>
      cases h
      exact .inr ⟨.variant (Variant.read signature), rfl⟩
  | implementation signature =>
      cases h
      exact .inr ⟨.variant (Variant.read signature), rfl⟩
  | threads raw =>
      obtain ⟨n, -, h⟩ := bind_ok h
      cases h
      exact .inr ⟨.threads n, rfl⟩
  | throughput raw =>
      obtain ⟨x, -, h⟩ := bind_ok h
      cases h
      exact .inr ⟨.throughput x, rfl⟩
  | component raw =>
      obtain ⟨metrics, -, h⟩ := bind_ok h
      obtain ⟨name, -, h⟩ := bind_ok h
      cases h
      exact .inr ⟨.component name metrics, rfl⟩
  | summary raw =>
      obtain ⟨metrics, -, h⟩ := bind_ok h
      cases h
      exact .inr ⟨.summary metrics, rfl⟩
  | expectedSize raw =>
      obtain ⟨n, -, h⟩ := bind_ok h
      cases h
      exact .inr ⟨.expectedFinalSize n, rfl⟩
  | _ =>
      cases h
      exact .inl rfl

/-- Every draft that markers tell is put together by settings. -/
theorem Told.exists_settings {said : Marker → Prop} {d : Draft} (h : d.Told said) :
    ∃ settings, d = ofSettings settings := by
  induction h with
  | empty => exact ⟨[], rfl⟩
  | micro => exact ⟨[.kind .micro], rfl⟩
  | @input d key value _ _ ih =>
      obtain ⟨settings, rfl⟩ := ih
      refine ⟨settings ++ [.input key value], ?_⟩
      rw [ofSettings_concat]
      rfl
  | note _ _ noted ih =>
      obtain ⟨settings, rfl⟩ := ih
      rcases note_set noted with rfl | ⟨s, rfl⟩
      · exact ⟨settings, rfl⟩
      · exact ⟨settings ++ [s], (ofSettings_concat _ _).symm⟩

/-- The result of a draft depends on the last setting of each place only. It is a record exactly
if all requirements are met, and otherwise tells how the first one of them falls short that is
not. An input parameter that does not stand in for a field that is not set is only kept, and a
throughput in the summary does not matter where one is set. -/
theorem ofSettings_complete (settings : List Setting) :
    let d := ofSettings settings
    (∀ place, d.held? place = (Setting.last? place settings).or (empty.held? place)) ∧
      (∀ others, (∀ place, Setting.last? place others = Setting.last? place settings) →
        (ofSettings others).complete = d.complete) ∧
      ((∃ r, d.complete = .ok r) ↔ ∀ q ∈ d.requirements, q.met) ∧
      (∀ e, d.complete = .error e ↔ Requirement.FirstFails d.requirements e) ∧
      (∀ key raw, ¬d.Consults key →
        (ofSettings (settings ++ [.input key raw])).complete =
          d.complete.map (Record.withInputs (d.inputs.insert key raw))) ∧
      (d.throughput ≠ none → ∀ metrics value,
        (ofSettings (settings ++
          [.summary (metrics.insert "throughput".toList value)])).complete =
            (ofSettings (settings ++ [.summary metrics])).complete) := by
  intro d
  refine ⟨held?_ofSettings settings, fun others same => ?_, d.decides_complete.ok,
    d.decides_complete.error, fun key raw unread => ?_, fun set metrics value => ?_⟩
  · have equal : ofSettings others = d := ext_held? fun place => by
      rw [held?_ofSettings, held?_ofSettings, same]
    rw [equal]
  · rw [ofSettings_concat]
    refine complete_withInputs fun other read => ?_
    rw [Dictionary.get?_insert, if_neg]
    rintro rfl
    exact unread read
  · rw [ofSettings_concat, ofSettings_concat]
    exact complete_summary set metrics value

end Draft
end RunLog
