import Mathlib
import RunLog.Proofs.SampleLines
import RunLog.Proofs.WrittenRuns

/-!
# Workload samples read back

A log that is put together from the texts of workload samples reads without a
fault, and gives one record for each sample, in their order, with what the sample
was to print. Every sample is a segment of its own, in which the chatter is
passed over and the summary line decides; so its record is read off the markers
told before.

What a sample prints is bound to read back only within limits, which are the
fields of `Readable`.
-/
namespace RunLog

theorem Metrics.badPair?_eq_none {t : Text} {metrics : Metrics} (h : Metrics.read t = .ok metrics) :
    badPair? t = none := by
  cases hbad : badPair? t with
  | none => rfl
  | some pair => cases (read_eq_error hbad).symm.trans h

theorem Draft.complete_workload {d : Draft} {kind : Kind} {variant : Variant} {n : Nat} {x : Float}
    (hkind : d.kind = some kind) (workload : kind ≠ .micro) (hthreads : d.threads = some n)
    (hn : 1 ≤ n) (hvariant : d.variant = some variant) (unstated : d.throughput = none)
    (hx : d.summary.get? "throughput".toList = some (.number x)) (finite : x.isFinite = true)
    (positive : 0 < x) :
    d.complete = .ok
      { kind := kind
        variant := variant
        threads := n
        throughput := x
        summary := d.summary.insert "throughput".toList (.number x)
        details := .workload d.schemaFile d.components
        closeToMax := none } := by
  have threads : d.completeThreads = .ok n := by
    simp only [completeThreads, statedThreads, hthreads, if_neg (Nat.one_le_iff_ne_zero.mp hn)]
  have variant' : d.completeVariant = .ok variant := by
    simp only [completeVariant, hvariant]
  have throughput : d.completeThroughput = .ok x := by
    simp only [completeThroughput, statedThroughput, unstated, hx, finite, positive, and_self,
      if_true]
  have details : d.completeDetails kind = .ok (.workload d.schemaFile d.components) := by
    rw [completeDetails, if_pos (Kind.isWorkload_iff.mpr workload)]
  simp only [complete, hkind, threads, variant', throughput, details]
  rfl

namespace Sample.Workload

/-- What a sample has to be like so that its text reads back. The number of threads may be
spelled in any way that is read as a number. -/
structure Readable (s : Workload) : Prop where
  bench : Text.IsWord s.bench
  schema : ∀ path ∈ s.schema, Text.IsWord path
  signature : ∃ signature ∈ s.signature,
    signature ≠ [] ∧ Text.trim signature = signature ∧ '\n' ∉ signature
  threads : ∃ n, Decimal.readNatural? Decimal.wordLimit s.threads = some n ∧ 1 ≤ n
  components : ∀ c ∈ s.components, IsName c.1 ∧ c.2.isFinite = true
  throughput : ∃ x ∈ s.throughput, x.isFinite = true ∧ 0 < x
  terminated : s.terminated = true
  short : ∀ line ∈ (Source.ofText s.text).texts,
    Utf8.size line ≤ Options.standard.maxLineLength

/-- The record holds what the sample was to print, and nothing else. Of components with one
name the last one counts. -/
structure ReadAs (s : Workload) (r : Record) : Prop where
  kind : ∃ word, Text.word? 0 (title s.bench) = some word ∧ r.kind = Kind.ofWord word
  variant : ∃ signature ∈ s.signature, r.variant = Variant.read signature
  threads : Decimal.readNatural? Decimal.wordLimit s.threads = some r.threads
  throughput : s.throughput = some r.throughput
  summary : r.summary = summaryMetrics r.throughput
  details : ∃ components, r.details = .workload s.schema components ∧ ∀ name,
    components.get? name =
      (s.components.reverse.find? fun c => name = c.1).map fun c => componentMetrics c.1 c.2
  closeToMax : r.closeToMax = none

def headMarkers (s : Workload) (word signature : Text) : List Marker :=
  .benchmark word :: s.schema.toList.map Marker.schema ++
    [.indexType signature, .threads s.threads]

/-- What a sample tells behind its first line and before its last one. -/
def told (s : Workload) (word signature : Text) : List Marker :=
  s.headMarkers word signature ++ s.components.map fun c => .component (componentPairs c.1 c.2)

theorem component?_componentPairs {name : Text} {x : Float} (h : IsName name)
    (finite : x.isFinite = true) :
    (Marker.component (componentPairs name x)).component? =
      some (name, componentMetrics name x) := by
  simp only [Marker.component?, read_componentPairs h finite]
  simp [componentMetrics, Metric.label]

section Told

variable {s : Workload} {word signature : Text}

theorem lastOf_components (h : ∀ c ∈ s.components, IsName c.1 ∧ c.2.isFinite = true) (name : Text) :
    Marker.lastOf Marker.component? name
        (s.components.map fun c => .component (componentPairs c.1 c.2)) =
      (s.components.reverse.find? fun c => name = c.1).map fun c => componentMetrics c.1 c.2 := by
  rw [Marker.lastOf, Marker.last, ← List.map_reverse, List.findSome?_map]
  have tells : ∀ c ∈ s.components.reverse, IsName c.1 ∧ c.2.isFinite = true :=
    fun c hc => h c (List.mem_reverse.mp hc)
  generalize s.components.reverse = components at tells
  induction components with
  | nil => rfl
  | cons c rest ih =>
      obtain ⟨hname, finite⟩ := tells c List.mem_cons_self
      have later := ih fun d hd => tells d (List.mem_cons_of_mem c hd)
      rw [List.findSome?_cons, List.find?_cons, Function.comp_apply,
        component?_componentPairs hname finite]
      by_cases same : name = c.1
      · simp [same]
      · simpa [same] using later

theorem mem_headMarkers {m : Marker} (hm : m ∈ s.headMarkers word signature) :
    m = .benchmark word ∨ (∃ path, m = .schema path) ∨ m = .indexType signature ∨
      m = .threads s.threads := by
  simp only [headMarkers, List.cons_append, List.mem_cons, List.mem_append, List.mem_map,
    List.not_mem_nil, or_false] at hm
  rcases hm with h | ⟨path, -, h⟩ | h
  · exact .inl h
  · exact .inr (.inl ⟨path, h.symm⟩)
  · exact .inr (.inr h)

/-- No marker of a sample decides before the last one, and none begins another run. -/
theorem told_quiet (h : s.Readable) :
    ∀ m ∈ s.told word signature, m.decides = false ∧ m.startsRun = false := by
  intro m hm
  rcases List.mem_append.mp hm with hm | hm
  · rcases mem_headMarkers hm with rfl | ⟨path, rfl⟩ | rfl | rfl
    · exact ⟨rfl, rfl⟩
    · exact ⟨rfl, rfl⟩
    · exact ⟨rfl, rfl⟩
    · obtain ⟨n, read, -⟩ := h.threads
      exact ⟨by simp [Marker.decides, Marker.defect?, Marker.threads?, read, Marker.unread?,
        Marker.endsRun], rfl⟩
  · obtain ⟨c, hc, rfl⟩ := List.mem_map.mp hm
    obtain ⟨hname, finite⟩ := h.components c hc
    have paired := Metrics.badPair?_eq_none (read_componentPairs hname finite)
    have named := component?_componentPairs hname finite
    exact ⟨by simp only [Marker.decides, Marker.defect?, paired, named]; rfl, rfl⟩

/-- A field that the lines of components say nothing about is told before them. -/
theorem last_told {α : Type} {tells : Marker → Option α}
    (silent : ∀ raw, tells (.component raw) = none) :
    Marker.last tells (s.told word signature) =
      (tells (.threads s.threads)).or ((tells (.indexType signature)).or
        ((s.schema.bind fun path => tells (.schema path)).or (tells (.benchmark word)))) := by
  have unsaid : Marker.last tells
      (s.components.map fun c => .component (componentPairs c.1 c.2)) = none := by
    refine Marker.last_eq_none.mpr fun m hm => ?_
    obtain ⟨c, -, rfl⟩ := List.mem_map.mp hm
    exact silent _
  have schema : Marker.last tells (s.schema.toList.map .schema) =
      s.schema.bind fun path => tells (.schema path) := by
    cases s.schema with
    | none => rfl
    | some path => exact (Marker.last_cons tells (.schema path) []).trans Option.none_or
  rw [told, Marker.last_append, unsaid, Option.none_or, headMarkers, Marker.last_append,
    Marker.last_cons, Marker.last_cons, Marker.last_cons, schema]
  exact Option.or_assoc

theorem lastOf_told (h : s.Readable) (name : Text) :
    Marker.lastOf Marker.component? name (s.told word signature) =
      (s.components.reverse.find? fun c => name = c.1).map fun c => componentMetrics c.1 c.2 := by
  have unsaid : Marker.lastOf Marker.component? name (s.headMarkers word signature) = none := by
    refine Marker.last_eq_none.mpr fun m hm => ?_
    rcases mem_headMarkers hm with rfl | ⟨path, rfl⟩ | rfl | rfl <;> rfl
  rw [← lastOf_components h.components, told, Marker.lastOf, Marker.last_append, ← Marker.lastOf,
    ← Marker.lastOf, unsaid, Option.or_none]

/-- The draft that the markers of a sample tell makes the record of the sample. -/
theorem complete_told (h : s.Readable) (hword : Text.word? 0 (title s.bench) = some word)
    (hsignature : s.signature = some signature) {x : Float} (hx : s.throughput = some x)
    {d : Draft} (hd : d.ToldBy .runStart (s.told word signature ++ [.summary (summaryPairs x)])) :
    ∃ r, d.complete = .ok r ∧ s.ReadAs r := by
  obtain ⟨n, threads, hn⟩ := h.threads
  obtain ⟨y, hy, finite, positive⟩ := h.throughput
  obtain rfl : x = y := Option.some.inj (hx.symm.trans hy)
  have kind : d.kind = some (Kind.ofWord word) := by
    rw [hd.kind, Marker.last_concat, last_told fun _ => rfl]
    cases s.schema <;> rfl
  have variant : d.variant = some (Variant.read signature) := by
    rw [hd.variant, Marker.last_concat, last_told fun _ => rfl]
    cases s.schema <;> rfl
  have threads' : d.threads = some n := by
    rw [hd.threads, Marker.last_concat, last_told fun _ => rfl, Marker.threads?, threads]
    rfl
  have unstated : d.throughput = none := by
    rw [hd.throughput, Marker.last_concat, last_told fun _ => rfl]
    cases s.schema <;> rfl
  have summary : d.summary = summaryMetrics x := by
    rw [hd.summary, Marker.last_concat, Marker.summary?, read_summaryPairs finite]
    rfl
  have schema : d.schemaFile = s.schema := by
    rw [hd.schemaFile, Marker.last_concat, last_told fun _ => rfl]
    cases s.schema <;> rfl
  have components : ∀ name, d.components.get? name =
      (s.components.reverse.find? fun c => name = c.1).map fun c => componentMetrics c.1 c.2 := by
    intro name
    rw [hd.components, Marker.lastOf_concat, lastOf_told h]
    rfl
  have stated : d.summary.get? "throughput".toList = some (.number x) := by
    rw [summary, summaryMetrics, Dictionary.get?_insert, if_pos rfl]
  refine ⟨_, Draft.complete_workload kind (Kind.ofWord_ne_micro word) threads' hn variant unstated
    stated finite positive, ?_⟩
  have again : d.summary.insert "throughput".toList (.number x) = summaryMetrics x := by
    refine Dictionary.ext_get? fun name => ?_
    rw [summary, summaryMetrics]
    simp only [Dictionary.get?_insert]
    split_ifs <;> rfl
  exact
    { kind := ⟨word, hword, rfl⟩
      variant := ⟨signature, hsignature, rfl⟩
      threads := threads
      throughput := hx
      summary := again
      details := ⟨d.components, by rw [schema], components⟩
      closeToMax := rfl }

end Told

/-- The lines of a sample say what it tells, and its last one ends the run. The rest of them
is chatter. -/
theorem read_lines {s : Workload} (h : s.Readable) :
    ∃ word signature x, Text.word? 0 (title s.bench) = some word ∧
      s.signature = some signature ∧ s.throughput = some x ∧ x.isFinite = true ∧
      s.lines.filterMap Marker.read =
        .runStart :: (s.told word signature ++ [.summary (summaryPairs x)]) := by
  obtain ⟨word, hword, announced⟩ := read_announcementLine h.bench
  obtain ⟨signature, hsignature, hne, trimmed, -⟩ := h.signature
  obtain ⟨n, threads, -⟩ := h.threads
  obtain ⟨x, hx, finite, -⟩ := h.throughput
  rw [Option.mem_def] at hsignature hx
  refine ⟨word, signature, x, hword, hsignature, hx, finite, ?_⟩
  have schema : (s.schema.toList.map schemaLine).filterMap Marker.read =
      s.schema.toList.map .schema :=
    Marker.filterMap_read fun path hpath =>
      read_schemaLine (h.schema path (Option.mem_toList.mp hpath))
  have components : (s.components.map fun c => statsLine c.1 c.2).filterMap Marker.read =
      s.components.map fun c => .component (componentPairs c.1 c.2) :=
    Marker.filterMap_read fun c hc => read_statsLine c.1 (h.components c hc).2
  have head : s.headLines.filterMap Marker.read = .runStart :: s.headMarkers word signature := by
    have opening : ["mem_allocator initialized!".toList, announcementLine s.bench].filterMap
        Marker.read = [.runStart, .benchmark word] := by
      rw [List.filterMap_cons, List.filterMap_cons, announced]
      rfl
    have initialized : ["Workload initialized!".toList].filterMap Marker.read = [] := rfl
    have running : [threadsLine s.threads, "query_queue initialized!".toList,
        "using NO_WAIT concurrency control".toList, "WARMUP start!".toList,
        "WARMUP finished!".toList].filterMap Marker.read = [.threads s.threads] := by
      rw [List.filterMap_cons, read_threadsLine (Decimal.isWord_of_readNatural? threads)]
      rfl
    have variant : (s.signature.toList.map (typeLine s.bracketed)).filterMap Marker.read =
        [.indexType signature] := by
      rw [hsignature]
      change [typeLine s.bracketed signature].filterMap Marker.read = _
      rw [List.filterMap_cons, read_typeLine s.bracketed hne trimmed]
      rfl
    rw [headLines, List.filterMap_append, List.filterMap_append, List.filterMap_append,
      List.filterMap_append, opening, schema, initialized, variant, running]
    simp [headMarkers]
  rw [lines, h.terminated, if_pos rfl, hx, List.filterMap_append, List.filterMap_append, head,
    components, List.filterMap_cons, read_endLine finite]
  rfl

theorem isLine_of_mem_lines {s : Workload} (h : s.Readable) :
    ∀ line ∈ s.lines, Text.IsLine line := by
  obtain ⟨signature, hsignature, -, -, feedless⟩ := h.signature
  obtain ⟨n, threads, -⟩ := h.threads
  obtain ⟨x, hx, finite, -⟩ := h.throughput
  rw [Option.mem_def] at hsignature hx
  have opening : ∀ line ∈ ["mem_allocator initialized!".toList, announcementLine s.bench],
      Text.IsLine line :=
    List.forall_mem_cons.mpr ⟨⟨by decide, by decide⟩,
      List.forall_mem_singleton.mpr (isLine_announcementLine h.bench)⟩
  have initialized : ∀ line ∈ ["Workload initialized!".toList], Text.IsLine line :=
    List.forall_mem_singleton.mpr ⟨by decide, by decide⟩
  have schema : ∀ line ∈ s.schema.toList.map schemaLine, Text.IsLine line :=
    List.forall_mem_map.mpr fun path hpath =>
      isLine_schemaLine (h.schema path (Option.mem_toList.mp hpath))
  have variant : ∀ line ∈ s.signature.toList.map (typeLine s.bracketed), Text.IsLine line := by
    rw [hsignature]
    exact List.forall_mem_singleton.mpr (isLine_typeLine s.bracketed feedless)
  have chatter : ∀ line ∈ ["query_queue initialized!".toList,
      "using NO_WAIT concurrency control".toList, "WARMUP start!".toList,
      "WARMUP finished!".toList], Text.IsLine line := by
    simp only [List.forall_mem_cons]
    exact ⟨⟨by decide, by decide⟩, ⟨by decide, by decide⟩, ⟨by decide, by decide⟩,
      ⟨by decide, by decide⟩, List.forall_mem_nil _⟩
  have components : ∀ line ∈ s.components.map fun c => statsLine c.1 c.2, Text.IsLine line :=
    List.forall_mem_map.mpr fun c hc => isLine_statsLine (h.components c hc).1 (h.components c hc).2
  have running := isLine_threadsLine (Decimal.isWord_of_readNatural? threads)
  rw [lines, h.terminated, if_pos rfl, hx, headLines]
  simp only [List.forall_mem_append]
  exact ⟨⟨⟨⟨⟨⟨opening, schema⟩, initialized⟩, variant⟩,
    List.forall_mem_cons.mpr ⟨running, chatter⟩⟩, components⟩,
    List.forall_mem_singleton.mpr (isLine_endLine finite)⟩

theorem readable_ofBench {bench : Text} (h : Text.IsWord bench)
    (short : ∀ line ∈ (Source.ofText (ofBench bench).text).texts,
      Utf8.size line ≤ Options.standard.maxLineLength) : (ofBench bench).Readable where
  bench := h
  schema := by
    rintro path hpath
    obtain rfl := Option.some.inj hpath
    refine ⟨List.cons_ne_nil _ _, ?_⟩
    simp only [List.forall_mem_append]
    exact ⟨⟨by simp [Text.isBlank], h.solid⟩, by simp [Text.isBlank]⟩
  signature := ⟨_, rfl, by decide, by decide, by decide⟩
  threads := ⟨1, rfl, le_refl 1⟩
  components := List.forall_mem_nil _
  throughput := ⟨1, rfl, by decide +kernel, by decide +kernel⟩
  terminated := rfl
  short := short

theorem texts_ofText_samples {samples : List Workload} (h : ∀ s ∈ samples, s.Readable) :
    (Source.ofText (samples.flatMap text)).texts = samples.flatMap lines :=
  Source.texts_ofText_flatMap (fun s _ => s.text_eq) fun s hs => isLine_of_mem_lines (h s hs)

theorem size_of_mem_lines {s : Workload} (h : s.Readable) :
    ∀ line ∈ s.lines, Utf8.size line ≤ Options.standard.maxLineLength :=
  Source.forall_mem_of_texts s.text_eq (isLine_of_mem_lines h) h.short

/-- Wherever a sample stands in a log, its lines are one run, and its record is what a reader
of its own finds there. -/
theorem harvest_lines {s : Workload} (h : s.Readable) (start : Nat) :
    let limit := Options.standard.maxLineLength
    let segment := Line.numbered start s.lines
    Line.Segment limit segment ∧
      ∃ r, Reader.start.harvest limit segment = [.record r] ∧ s.ReadAs r := by
  intro limit segment
  obtain ⟨word, signature, x, hword, hsignature, hx, finite, read⟩ := read_lines h
  obtain ⟨body, hlines⟩ : ∃ body, s.lines = "mem_allocator initialized!".toList :: body :=
    ⟨_, rfl⟩
  have hfirst : Marker.read "mem_allocator initialized!".toList = some .runStart := rfl
  have short : ∀ line ∈ s.lines, Utf8.size line ≤ limit := size_of_mem_lines h
  have sound : (Marker.summary (summaryPairs x)).defect? = none := by
    simp only [Marker.defect?, Metrics.badPair?_eq_none (read_summaryPairs finite), Option.map_none]
  rw [hlines, List.filterMap_cons, hfirst] at read
  rw [hlines] at short
  have run := Line.run_of_texts short hfirst rfl (List.cons.inj read).2 (told_quiet h) sound rfl
    (fun d hd => complete_told h hword hsignature hx hd) start
  rwa [← hlines] at run

/-- The texts of readable samples, one behind the other, read without a fault, and the records
are those of the samples in their order. -/
theorem read_back {samples : List Workload} (h : ∀ s ∈ samples, s.Readable) :
    ∃ outcome, Outcome.ofSource .standard (.ofText (samples.flatMap text)) = .ok outcome ∧
      outcome.faults = [] ∧ List.Forall₂ ReadAs samples outcome.records := by
  have texts := texts_ofText_samples h
  exact Outcome.ofSource_runs texts fun s hs start => harvest_lines (h s hs) start

/-- A sample with brackets and a second `type: ` in its signature, an equals sign in the name
of a component, and a component that is told twice. -/
def crowded : Workload :=
  { bench := "TPCC-READONLY".toList
    schema := some "benchmarks/TPCC_schema.txt".toList
    signature := some "Skip [ type: list] (lock)".toList
    bracketed := true
    threads := Decimal.natural 48
    components := [("ITEM".toList, 1.5), ("a=b".toList, 2), ("ITEM".toList, 0.25)]
    throughput := some 12.5
    terminated := true }

theorem readable_crowded : crowded.Readable where
  bench := by
    change Text.IsWord "TPCC-READONLY".toList
    exact ⟨by simp, by simp [Text.isBlank]⟩
  schema := by
    rintro path hpath
    obtain rfl := Option.some.inj hpath
    exact ⟨by simp, by simp [Text.isBlank]⟩
  signature := ⟨_, rfl, by decide, by decide, by decide +kernel⟩
  threads := by
    have small : 48 < Decimal.wordLimit := by decide
    exact ⟨48, Decimal.readNatural?_natural small, by decide⟩
  components := by
    refine List.forall_mem_cons.mpr ⟨?_, List.forall_mem_cons.mpr ⟨?_,
      List.forall_mem_singleton.mpr ?_⟩⟩
    all_goals exact ⟨⟨by decide, by decide, by decide, by decide +kernel⟩, by decide +kernel⟩
  throughput := ⟨12.5, rfl, by decide +kernel, by decide +kernel⟩
  terminated := rfl
  short := by decide +kernel

theorem read_back_crowded :
    (∀ s ∈ [crowded, ofBench "YCSB".toList], s.Readable) ∧
      ∃ outcome, Outcome.ofSource .standard
          (.ofText (crowded.text ++ (ofBench "YCSB".toList).text)) = .ok outcome ∧
        outcome.faults = [] ∧
        List.Forall₂ ReadAs [crowded, ofBench "YCSB".toList] outcome.records := by
  have fresh : (ofBench "YCSB".toList).Readable :=
    readable_ofBench ⟨by simp, by simp [Text.isBlank]⟩ (by decide +kernel)
  have readable : ∀ s ∈ [crowded, ofBench "YCSB".toList], s.Readable :=
    List.forall_mem_cons.mpr ⟨readable_crowded, List.forall_mem_singleton.mpr fresh⟩
  refine ⟨readable, ?_⟩
  have read := read_back readable
  rwa [List.flatMap_cons, List.flatMap_singleton] at read

end Sample.Workload

end RunLog
