import RunLog.Proofs.MarkerReadings
import RunLog.Proofs.ReaderMoves
import RunLog.Proofs.StoreHistory

/-!
# Where records come from

A reader puts a draft together marker by marker: it begins empty, or as the draft of
a micro run, and each marker adds an input parameter or is noted. `Draft.Told` lists
these ways once, and every record of a source is made of a complete draft that came
about in them, from markers on the lines of the source (`Outcome.ofSource_told`).
What holds of the drafts of all runs is shown by induction on `Draft.Told`, without
looking at a reader again.

Stores only gather records and measure them. As long as nothing is pushed, each
record of a store is one that some source was read to hold, measured or not
(`Store.parsed_of_unpushed`).
-/
namespace RunLog

/-- The draft was put together from markers of which `said` holds. -/
inductive Draft.Told (said : Marker → Prop) : Draft → Prop
  | empty : Told said Draft.empty
  | micro : Told said { Draft.empty with kind := some .micro }
  | input {d : Draft} {key value : Text} : Told said d → said (.input key value) →
      Told said (d.withInput key value)
  | note {d after : Draft} {m : Marker} : Told said d → said m → d.note m = .ok after →
      Told said after

theorem Draft.Told.imp {said heard : Marker → Prop} {d : Draft} (h : d.Told said)
    (weaker : ∀ m, said m → heard m) : d.Told heard := by
  induction h with
  | empty => exact .empty
  | micro => exact .micro
  | input _ hm ih => exact .input ih (weaker _ hm)
  | note _ hm noted ih => exact .note ih (weaker _ hm) noted

/-- What a field of a draft holds was there when the run began, or some marker told it. -/
theorem Draft.Told.field {said : Marker → Prop} {α : Type} {field : Draft → Option α}
    {tells : Marker → Option α}
    (added : ∀ d key value, field (Draft.withInput d key value) = field d)
    (noted : ∀ {d after : Draft} {m}, d.note m = .ok after → field after = (tells m).or (field d))
    {d : Draft} (h : d.Told said) {a : α} (ha : field d = some a) :
    field .empty = some a ∨ field { Draft.empty with kind := some .micro } = some a ∨
      ∃ m, said m ∧ tells m = some a := by
  induction h with
  | empty => exact .inl ha
  | micro => exact .inr (.inl ha)
  | input _ _ ih => exact ih (added _ _ _ ▸ ha)
  | note _ hm hnote ih =>
      rw [noted hnote] at ha
      rcases Option.or_eq_some_iff.mp ha with told | ⟨-, known⟩
      · exact .inr (.inr ⟨_, hm, told⟩)
      · exact ih known

namespace Reader

variable {said : Marker → Prop} {limit : Nat} {reader : Reader}

theorem openRun_told (number : Nat) (m : Marker) : (reader.openRun number m).draft.Told said := by
  change Draft.Told said { Draft.empty with kind := if m = .inputsStart then some .micro else none }
  split_ifs
  · exact .micro
  · exact .empty

theorem take_told {taken : Reader} {m : Marker} (h : reader.draft.Told said) (hm : said m)
    (htake : reader.take m = .ok taken) : taken.draft.Told said := by
  cases take_taken htake with
  | parameter => exact h.input hm
  | closed => exact h
  | noted hnote => exact h.note hm hnote

/-- One line adds its marker to the draft, and a record that it ends is made of such a draft. -/
theorem step_told {line : Line} (h : reader.draft.Told said)
    (heard : ∀ m, line.marker? limit = some m → said m) :
    (reader.step limit line).1.draft.Told said ∧
      ∀ r, (reader.step limit line).2 = some (.record r) →
        ∃ d : Draft, d.Told said ∧ d.complete = .ok r := by
  have passed : (reader.pass line).draft.Told said := h
  have move := step_move limit reader line
  generalize reader.step limit line = s at move ⊢
  cases move with
  | passed hm => exact ⟨h, by simp⟩
  | begun hm hs =>
      refine ⟨openRun_told _ _, fun r hr => ?_⟩
      cases hp : reader.unfinished? line.number <;> simp [hp] at hr
  | outside hm hs hp => exact ⟨h, by simp⟩
  | dropped hm hs hp ht => exact ⟨.empty, by simp⟩
  | @ended m taken hm hs hp ht he =>
      refine ⟨.empty, fun r hr => ⟨taken.draft, take_told passed (heard m hm) ht, ?_⟩⟩
      simp only [Finding.ofDraft, Option.some.injEq] at hr
      cases hc : taken.draft.complete with
      | ok other =>
          rw [hc] at hr
          cases hr
          rfl
      | error e =>
          rw [hc] at hr
          cases hr
  | collected hm hs hp ht he => exact ⟨take_told passed (heard _ hm) ht, by simp⟩

theorem readAll_told {lines : List Line} (h : reader.draft.Told said)
    (heard : ∀ line ∈ lines, ∀ m, line.marker? limit = some m → said m) {r : Record}
    (hr : .record r ∈ (reader.readAll limit lines).2) :
    ∃ d : Draft, d.Told said ∧ d.complete = .ok r := by
  induction lines generalizing reader with
  | nil => cases hr
  | cons line rest ih =>
      rw [List.forall_mem_cons] at heard
      obtain ⟨kept, made⟩ := step_told h heard.1
      rw [readAll_cons] at hr
      rcases List.mem_append.mp hr with hnow | hlater
      · exact made r (Option.mem_toList.mp hnow)
      · exact ih kept heard.2 hlater

end Reader

namespace Outcome

/-- Every record of a source is made of a complete draft that the lines of the source tell. -/
theorem ofSource_told {options : Options} {source : Source} {outcome : Outcome}
    (h : ofSource options source = .ok outcome) {r : Record} (hr : r ∈ outcome.records) :
    ∃ d : Draft, d.Told (fun m => ∃ line ∈ source.lines,
      line.marker? options.maxLineLength = some m) ∧ d.complete = .ok r := by
  rw [ofSource_ok h] at hr
  obtain ⟨finding, hmem, hfinding⟩ := List.mem_filterMap.mp hr
  cases finding with
  | fault f => cases hfinding
  | record made =>
      cases hfinding
      rw [Reader.harvest, Reader.leftOver, List.mem_append] at hmem
      rcases hmem with hread | hleft
      · exact Reader.readAll_told .empty (fun line hline m hm =>
          ⟨line, Source.mem_lines_of_buffered hline, hm⟩) hread
      · simp at hleft

end Outcome

namespace Record

/-- What does not look at the measured value passes from records to the same records measured
differently. -/
theorem forall_of_unmeasured {p : Record → Prop} (blind : ∀ {r}, p (unmeasured r) ↔ p r)
    {records others : List Record} (same : others.map unmeasured = records.map unmeasured)
    (h : ∀ r ∈ records, p r) : ∀ r ∈ others, p r := by
  intro r hr
  have hmem : r.unmeasured ∈ records.map unmeasured := same ▸ List.mem_map_of_mem hr
  obtain ⟨original, horiginal, heq⟩ := List.mem_map.mp hmem
  exact blind.mp (heq ▸ blind.mpr (h original horiginal))

/-- The record is one of those that a source is read to hold, up to its measured value. -/
def Parsed (r : Record) : Prop :=
  ∃ options source outcome, Outcome.ofSource options source = .ok outcome ∧
    ∃ original ∈ outcome.records, original.unmeasured = r.unmeasured

theorem parsed_unmeasured {r : Record} : r.unmeasured.Parsed ↔ r.Parsed := Iff.rfl

/-- What holds of every complete draft that the lines of a source tell holds of a parsed record,
unless it looks at the measured value. -/
theorem Parsed.of_told {said : Marker → Prop} {p : Record → Prop} {r : Record} (h : r.Parsed)
    (heard : ∀ (source : Source) (limit : Nat), ∀ line ∈ source.lines, ∀ m,
      line.marker? limit = some m → said m)
    (blind : ∀ {r}, p (unmeasured r) ↔ p r)
    (built : ∀ {d : Draft} {r : Record}, d.Told said → d.complete = .ok r → p r) : p r := by
  obtain ⟨options, source, outcome, found, original, hmem, same⟩ := h
  obtain ⟨d, told, complete⟩ := Outcome.ofSource_told found hmem
  have told : d.Told said := told.imp fun m ⟨line, hline, hm⟩ => heard source _ line hline m hm
  exact blind.mp (same ▸ blind.mpr (built told complete))

end Record

namespace Request

theorem parsed_of_ingest {options : Options} {name : Text} {source : Source} {r : Record}
    (hr : r ∈ (ingest name source).records options) :
    ∃ outcome, Outcome.ofSource options source = .ok outcome ∧ r ∈ outcome.records := by
  cases h : Outcome.ofSource options source with
  | ok outcome =>
      rw [records_of_ok h] at hr
      exact ⟨outcome, rfl, hr⟩
  | error f =>
      rw [records_of_error h] at hr
      cases hr

end Request

theorem Store.parsed_of_unpushed (options : Options) {requests : List Request}
    (unpushed : ∀ r, .push r ∉ requests) :
    ∀ r ∈ ((empty options).performAll requests).1.records, r.Parsed := by
  have same := (Grown.performAll (empty options) requests).records
  refine Record.forall_of_unmeasured Record.parsed_unmeasured same fun r hr => ?_
  obtain ⟨request, hrequest, hr⟩ := List.mem_flatMap.mp hr
  cases request with
  | ingest name source =>
      obtain ⟨outcome, found, hmem⟩ := Request.parsed_of_ingest hr
      exact ⟨_, source, outcome, found, r, hmem, rfl⟩
  | push pushed => exact absurd hrequest (unpushed pushed)
  | annotate => cases hr

end RunLog
