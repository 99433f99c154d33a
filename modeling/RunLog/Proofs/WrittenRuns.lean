import RunLog.Proofs.Dialects

/-!
# Runs that are put together from lines

A log can be written run by run, each as a list of texts. If the first text of a
run begins it, no marker before the last one decides, and the last one completes a
record, then a reader of its own finds that record and nothing else, wherever the
run stands in the log (`Line.run_of_texts`). Runs that are written one behind the
other are cut apart again, and tell their records in order (`Reader.apart_runs`).
-/
namespace RunLog

/-- Lines of the given texts, numbered from `start` on. -/
def Line.numbered (start : Nat) (texts : List Text) : List Line :=
  (texts.zipIdx start).map fun (t, n) => ⟨n, t⟩

namespace Line

variable {limit start : Nat} {texts : List Text}

theorem numbered_cons (start : Nat) (t : Text) (texts : List Text) :
    numbered start (t :: texts) = ⟨start, t⟩ :: numbered (start + 1) texts := rfl

theorem numbered_append (start : Nat) (texts more : List Text) :
    numbered start (texts ++ more) =
      numbered start texts ++ numbered (start + texts.length) more := by
  rw [numbered, numbered, numbered, List.zipIdx_append, List.map_append]

theorem marker?_of_size {line : Line} (h : Utf8.size line.text ≤ limit) :
    line.marker? limit = Marker.read line.text := by
  rw [marker?, if_neg (Nat.not_lt.mpr h)]

theorem markers_numbered (h : ∀ t ∈ texts, Utf8.size t ≤ limit) (start : Nat) :
    (markers limit (numbered start texts)).map Prod.snd = texts.filterMap Marker.read := by
  induction texts generalizing start with
  | nil => rfl
  | cons t rest ih =>
      have marker : (⟨start, t⟩ : Line).marker? limit = Marker.read t :=
        marker?_of_size (h t List.mem_cons_self)
      rw [numbered_cons, markers_cons, marker, List.map_append,
        ih fun u hu => h u (List.mem_cons_of_mem t hu), List.filterMap_cons]
      cases Marker.read t <;> rfl

theorem beginsRun_eq_false {lines : List Line}
    (h : ∀ m ∈ (markers limit lines).map Prod.snd, m.startsRun = false) :
    ∀ line ∈ lines, line.beginsRun limit = false := by
  intro line hline
  rw [beginsRun]
  cases hm : line.marker? limit with
  | none => rfl
  | some m =>
      have mem : (line.number, m) ∈ markers limit lines :=
        List.mem_filterMap.mpr ⟨line, hline, by rw [hm]; rfl⟩
      exact h m (List.mem_map_of_mem mem)

end Line

namespace Marker

theorem last_append {α : Type} (tells : Marker → Option α) (told more : List Marker) :
    last tells (told ++ more) = (last tells more).or (last tells told) := by
  rw [last, List.reverse_append, List.findSome?_append]
  rfl

theorem last_cons {α : Type} (tells : Marker → Option α) (m : Marker) (told : List Marker) :
    last tells (m :: told) = (last tells told).or (tells m) := by
  rw [← List.singleton_append, last_append]
  congr 1
  cases h : tells m <;> simp [last, h]

/-- Lines that are read one by one, each as the marker of what it was written for. -/
theorem filterMap_read {α : Type} {items : List α} {line : α → Text} {marker : α → Marker}
    (h : ∀ item ∈ items, read (line item) = some (marker item)) :
    (items.map line).filterMap read = items.map marker := by
  rw [List.filterMap_map, ← List.filterMap_eq_map]
  exact List.filterMap_congr h

end Marker

/-- The last marker of a run is the first one that decides, and completes the record. -/
theorem Verdict.record_of_told {opening ending : Marker} {told : List Marker} {P : Record → Prop}
    {started last : Nat} {markers : List (Nat × Marker)} {finding : Finding}
    (hmarkers : markers.map Prod.snd = told ++ [ending])
    (quiet : ∀ m ∈ told, m.decides = false) (sound : ending.defect? = none)
    (ends : ending.endsRun = true)
    (complete : ∀ d : Draft, d.ToldBy opening (told ++ [ending]) →
      ∃ r, d.complete = .ok r ∧ P r)
    (verdict : Verdict opening started last markers finding) :
    ∃ r, finding = .record r ∧ P r := by
  obtain ⟨before, behind, rfl, htold, hlast⟩ := List.map_eq_append_iff.mp hmarkers
  obtain ⟨⟨number, m⟩, rfl, hm⟩ := List.map_eq_singleton_iff.mp hlast
  obtain rfl : ending = m := hm.symm
  have undecided : ∀ marker ∈ before, marker.2.decides = false := fun marker hmem =>
    quiet marker.2 (htold ▸ List.mem_map_of_mem hmem)
  rcases verdict.decided rfl undecided (Marker.decides_of_endsRun ends) with
    ⟨e, defect, -⟩ | ⟨-, d, hd, rfl⟩
  · cases sound.symm.trans defect
  · rw [htold] at hd
    obtain ⟨r, hcomplete, hr⟩ := complete d hd
    refine ⟨r, ?_, hr⟩
    rw [Finding.ofDraft, hcomplete]

/-- Wherever the texts stand in a log, their lines are one run, and a reader of its own finds the
record that they complete. -/
theorem Line.run_of_texts {limit : Nat} {first : Text} {body : List Text}
    {opening ending : Marker} {told : List Marker} {P : Record → Prop}
    (short : ∀ t ∈ first :: body, Utf8.size t ≤ limit)
    (hfirst : Marker.read first = some opening) (begins : opening.startsRun = true)
    (hbody : body.filterMap Marker.read = told ++ [ending])
    (quiet : ∀ m ∈ told, m.decides = false ∧ m.startsRun = false)
    (sound : ending.defect? = none) (ends : ending.endsRun = true)
    (complete : ∀ d : Draft, d.ToldBy opening (told ++ [ending]) →
      ∃ r, d.complete = .ok r ∧ P r) (start : Nat) :
    let segment := numbered start (first :: body)
    Segment limit segment ∧ ∃ r, Reader.start.harvest limit segment = [.record r] ∧ P r := by
  intro segment
  rw [List.forall_mem_cons] at short
  have hopening : marker? limit ⟨start, first⟩ = some opening :=
    (marker?_of_size short.1).trans hfirst
  have hmarkers : (markers limit (numbered (start + 1) body)).map Prod.snd = told ++ [ending] :=
    (markers_numbered short.2 (start + 1)).trans hbody
  have running : ending.startsRun = false := by cases ending <;> first | rfl | cases ends
  have cut : segment = ⟨start, first⟩ :: numbered (start + 1) body := numbered_cons start first body
  have shape : Segment limit segment := by
    rw [cut]
    refine .intro _ _ (beginsRun_iff.mpr ⟨opening, hopening, begins⟩) (beginsRun_eq_false ?_)
    rw [hmarkers, List.forall_mem_append]
    exact ⟨fun m hm => (quiet m hm).2, List.forall_mem_singleton.mpr running⟩
  obtain ⟨line, rest, m, finding, hsegment, hmarker, -, hfound, verdict⟩ := shape.verdict
  obtain ⟨rfl, rfl⟩ := List.cons.inj (hsegment.symm.trans cut)
  obtain rfl := Option.some.inj (hmarker.symm.trans hopening)
  obtain ⟨r, rfl, hr⟩ :=
    verdict.record_of_told hmarkers (fun m hm => (quiet m hm).1) sound ends complete
  exact ⟨shape, r, hfound, hr⟩

section Runs

variable {α : Type} {limit : Nat} {lines : α → List Text} {P : α → Record → Prop} {runs : List α}

/-- Runs that are written one behind the other are cut apart again. -/
theorem Reader.apart_runs
    (h : ∀ run ∈ runs, ∀ start, Line.Segment limit (Line.numbered start (lines run)) ∧
      ∃ r, Reader.start.harvest limit (Line.numbered start (lines run)) = [.record r] ∧ P run r)
    (start : Nat) :
    ∃ segments records, Line.numbered start (runs.flatMap lines) = segments.flatten ∧
      (∀ segment ∈ segments, Line.Segment limit segment) ∧
      apart limit segments = records.map .record ∧ List.Forall₂ P runs records := by
  induction runs generalizing start with
  | nil => exact ⟨[], [], rfl, List.forall_mem_nil _, rfl, .nil⟩
  | cons run rest ih =>
      rw [List.forall_mem_cons] at h
      obtain ⟨shape, r, found, hr⟩ := h.1 start
      obtain ⟨segments, records, cut, shapes, later, matched⟩ :=
        ih h.2 (start + (lines run).length)
      refine ⟨_ :: segments, r :: records, ?_, List.forall_mem_cons.mpr ⟨shape, shapes⟩, ?_,
        .cons hr matched⟩
      · rw [List.flatMap_cons, Line.numbered_append, cut, List.flatten_cons]
      · rw [apart, found, later]
        rfl

/-- A source whose lines are such runs tells their records, and no fault. -/
theorem Outcome.ofSource_runs {octets : Octets}
    (texts : (Source.ofOctets octets).texts = runs.flatMap lines)
    (h : ∀ run ∈ runs, ∀ start,
      Line.Segment Options.standard.maxLineLength (Line.numbered start (lines run)) ∧
        ∃ r, Reader.start.harvest Options.standard.maxLineLength
            (Line.numbered start (lines run)) = [.record r] ∧ P run r) :
    ∃ outcome, ofSource .standard (.ofOctets octets) = .ok outcome ∧ outcome.faults = [] ∧
      List.Forall₂ P runs outcome.records := by
  obtain ⟨segments, records, cut, shapes, found, matched⟩ := Reader.apart_runs h 1
  have whole : (Source.ofOctets octets).lines = segments.flatten := by
    rw [Source.lines, texts]
    exact cut
  have harvest : Reader.start.harvest Options.standard.maxLineLength segments.flatten =
      records.map .record := by
    rw [Reader.harvest_segments _ shapes, found]
    rfl
  refine ⟨_, ofSource_lenient .standard octets, ?_, ?_⟩
  · change (Reader.start.harvest _ (Source.ofOctets octets).lines).filterMap fault? = []
    rw [whole, harvest, List.filterMap_map]
    exact List.filterMap_eq_nil_iff.mpr fun r _ => rfl
  · change List.Forall₂ P runs
      ((Reader.start.harvest _ (Source.ofOctets octets).lines).filterMap record?)
    have kept : records.filterMap (record? ∘ Finding.record) = records := List.filterMap_some
    rwa [whole, harvest, List.filterMap_map, kept]

end Runs

end RunLog
