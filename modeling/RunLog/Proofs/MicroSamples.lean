import Mathlib
import RunLog.Proofs.MicroLines
import RunLog.Proofs.WrittenRuns

/-!
# Micro samples read back

A log that is put together from the texts of micro samples reads without a fault,
and gives one record for each sample, in their order. Only the last line of a
sample decides, and most of the record is not told before it by markers of its
own: the threads, the workload mix and the sizes are read from the input
parameters, whose block the first blank line closes, and so is the variant unless
the sample names an implementation.

A sample prints its throughput with three places, so the record holds what these
three places say and not the throughput that was given.
-/
namespace RunLog

/-- Of parameters with different keys each is told once, so that the last word on a key is
the only one. -/
theorem Marker.lastOf_parameters {entries : List (Text × Text)}
    (distinct : (entries.map Prod.fst).Nodup) (key : Text) :
    lastOf parameter? key (entries.map fun p => .input p.1 p.2) = entries.lookup key := by
  induction entries with
  | nil => rfl
  | cons entry rest ih =>
      obtain ⟨fresh, later⟩ := List.nodup_cons.mp distinct
      have step : lastOf parameter? key ((entry :: rest).map fun p => .input p.1 p.2) =
          (rest.lookup key).or (if key = entry.1 then some entry.2 else none) := by
        rw [← ih later, List.map_cons, lastOf, last_cons]
        rfl
      rw [step, Dictionary.lookup_cons]
      split_ifs with same
      · have unsaid : rest.lookup key = none := by
          refine List.lookup_eq_none_iff.mpr fun p hp => bne_iff_ne.mpr ?_
          rintro rfl
          exact fresh (same ▸ List.mem_map_of_mem hp)
        rw [unsaid, Option.none_or]
      · exact Option.or_none

namespace Draft

theorem inputNumber_ok {d : Draft} {limit n : Nat} {key raw : Text} (field : Text)
    (told : d.inputs.get? key = some raw) (read : Decimal.readNatural? limit raw = some n) :
    d.inputNumber limit key field = .ok n := by
  simp only [inputNumber, told, (Decimal.isWord_of_readNatural? read).trim, read]

theorem complete_micro {d : Draft} {variant : Variant} {n mix size final : Nat} {x : Float}
    (hkind : d.kind = some .micro) (hthreads : d.statedThreads = .ok n) (hn : 1 ≤ n)
    (hvariant : d.completeVariant = .ok variant) (hx : d.throughput = some x)
    (finite : x.isFinite = true) (positive : 0 < x)
    (hmix : d.setOrInput d.workloadMix Decimal.wordLimit "lookup_frac".toList = .ok mix)
    (hsize : d.setOrInput d.initialSize Decimal.sizeLimit "init_tree_size".toList = .ok size)
    (hfinal : d.expectedFinalSize = some final) :
    d.complete = .ok
      { kind := .micro
        variant := variant
        threads := n
        throughput := x
        summary := d.summary.insert "throughput".toList (.number x)
        details := .micro mix size final d.inputs
        closeToMax := none } := by
  have threads : d.completeThreads = .ok n := by
    simp only [completeThreads, hthreads, if_neg (Nat.one_le_iff_ne_zero.mp hn)]
  have throughput : d.completeThroughput = .ok x := by
    simp only [completeThroughput, statedThroughput, hx, finite, positive, and_self, if_true]
  have details : d.completeDetails .micro = .ok (.micro mix size final d.inputs) := by
    simp only [completeDetails, Kind.isWorkload, Bool.false_eq_true, if_false, hmix, hsize, hfinal]
    rfl
  simp only [complete, hkind, threads, hvariant, throughput, details]
  rfl

end Draft

namespace Sample.Micro

/-- What a sample has to be like so that its text reads back. The name of the data structure
and that of its synchronization may be empty; the share of lookups may be spelled in any way
that is read as a number. -/
structure Readable (s : Micro) : Prop where
  structureName : Text.trim s.structureName = s.structureName ∧ '\n' ∉ s.structureName
  synchronization : Text.trim s.synchronization = s.synchronization ∧ '\n' ∉ s.synchronization
  threads : 1 ≤ s.threads ∧ s.threads < Decimal.wordLimit
  initialSize : s.initialSize < 2 ^ 63
  lookupShare : ∃ n, Decimal.readNatural? Decimal.wordLimit s.lookupShare = some n
  implementation : ∀ signature ∈ s.implementation, Text.IsWord signature
  throughput : ∃ x, Decimal.read? (Decimal.fixed 3 s.throughput) = some x ∧
    x.isFinite = true ∧ 0 < x
  expectedSize : ∀ n ∈ s.expectedSize, n < Decimal.sizeLimit
  short : ∀ line ∈ (Source.ofText s.text).texts,
    Utf8.size line ≤ Options.standard.maxLineLength

def signature (s : Micro) : Text :=
  s.implementation.getD (s.structureName ++ '(' :: (s.synchronization ++ [')']))

structure ReadAs (s : Micro) (r : Record) : Prop where
  kind : r.kind = .micro
  variant : r.variant = Variant.read s.signature
  threads : r.threads = s.threads
  throughput : Decimal.read? (Decimal.fixed 3 s.throughput) = some r.throughput
  summary : r.summary = (∅ : Metrics).insert "throughput".toList (.number r.throughput)
  details : ∃ mix inputs, Decimal.readNatural? Decimal.wordLimit s.lookupShare = some mix ∧
    r.details = .micro mix s.initialSize s.finalSize inputs ∧
    ∀ key, inputs.get? key = s.parameters.lookup key
  closeToMax : r.closeToMax = none

/-- What a sample tells behind its first line and before its last one. -/
def told (s : Micro) : List Marker :=
  s.parameters.map (fun p => .input p.1 p.2) ++ [.blank, .blank] ++
    s.implementation.toList.map .implementation ++
    [.blank, .throughput (Decimal.fixed 3 s.throughput)]

theorem finalSize_lt {s : Micro} (h : s.Readable) : s.finalSize < Decimal.sizeLimit := by
  rw [finalSize]
  cases hsize : s.expectedSize with
  | some n => exact h.expectedSize n hsize
  | none => exact h.initialSize.trans (show 2 ^ 63 < Decimal.sizeLimit by decide)

section Told

variable {s : Micro}

theorem distinct_parameters (s : Micro) : (s.parameters.map Prod.fst).Nodup := by
  simp only [parameters, List.map_cons, List.map_nil]
  decide

theorem parameters_values (h : s.Readable) :
    ∀ p ∈ s.parameters, Text.trim p.2 = p.2 ∧ '\n' ∉ p.2 := by
  have word {t : Text} (ht : Text.IsWord t) : Text.trim t = t ∧ '\n' ∉ t :=
    ⟨ht.trim, ht.notMem rfl⟩
  obtain ⟨mix, share⟩ := h.lookupShare
  simp only [parameters, List.forall_mem_cons]
  exact ⟨word (Decimal.isWord_natural _), word (Decimal.isWord_natural _),
    word (Decimal.isWord_natural _), word (Decimal.isWord_of_readNatural? share),
    ⟨by decide, by decide⟩, word (Decimal.isWord_natural _), ⟨by decide, by decide⟩,
    ⟨by decide, by decide⟩, h.structureName, h.synchronization, ⟨by decide, by decide⟩,
    List.forall_mem_nil _⟩

/-- No marker of a sample decides before the last one, and none begins another run. -/
theorem told_quiet (h : s.Readable) :
    ∀ m ∈ s.told, m.decides = false ∧ m.startsRun = false := by
  obtain ⟨x, read, -⟩ := h.throughput
  have rate : (Marker.throughput (Decimal.fixed 3 s.throughput)).decides = false := by
    simp [Marker.decides, Marker.defect?, Marker.throughput?, read, Marker.unread?, Marker.endsRun]
  simp only [told, List.forall_mem_append, List.forall_mem_map, List.forall_mem_cons]
  exact ⟨⟨⟨fun p _ => ⟨rfl, rfl⟩, ⟨rfl, rfl⟩, ⟨rfl, rfl⟩, List.forall_mem_nil _⟩,
    fun signature _ => ⟨rfl, rfl⟩⟩, ⟨rfl, rfl⟩, ⟨rate, rfl⟩, List.forall_mem_nil _⟩

/-- Parameters and blank lines aside, a sample tells its implementation and its throughput. -/
theorem last_told {α : Type} {tells : Marker → Option α} (blank : tells .blank = none)
    (silent : ∀ key value, tells (.input key value) = none) :
    Marker.last tells s.told = (tells (.throughput (Decimal.fixed 3 s.throughput))).or
      (s.implementation.bind fun signature => tells (.implementation signature)) := by
  have unsaid : Marker.last tells
      (s.parameters.map (fun p => .input p.1 p.2) ++ [.blank, .blank]) = none := by
    refine Marker.last_eq_none.mpr ?_
    simp only [List.forall_mem_append, List.forall_mem_map, List.forall_mem_cons]
    exact ⟨fun p _ => silent p.1 p.2, blank, blank, List.forall_mem_nil _⟩
  have implementation : Marker.last tells (s.implementation.toList.map .implementation) =
      s.implementation.bind fun signature => tells (.implementation signature) := by
    cases s.implementation with
    | none => rfl
    | some signature =>
        exact (Marker.last_cons tells (.implementation signature) []).trans Option.none_or
  rw [told, Marker.last_append, Marker.last_append, unsaid, Option.or_none, implementation,
    Marker.last_cons, Marker.last_cons, blank]
  simp [Marker.last]

/-- The block of input parameters is the parameters of the sample: the blank line closes it. -/
theorem block_told (ending : Marker) :
    Marker.block .inputsStart (s.told ++ [ending]) =
      s.parameters.map fun p => .input p.1 p.2 := by
  have parameters : ∀ m ∈ s.parameters.map (fun p => Marker.input p.1 p.2),
      m.parameter?.isSome = true := List.forall_mem_map.mpr fun p _ => rfl
  rw [Marker.block, if_pos rfl, told, List.append_assoc, List.append_assoc, List.append_assoc,
    List.takeWhile_append_of_pos parameters]
  exact List.append_nil _

/-- The draft that the markers of a sample tell makes the record of the sample. -/
theorem complete_told (h : s.Readable) {d : Draft}
    (hd : d.ToldBy .inputsStart (s.told ++ [.expectedSize (Decimal.natural s.finalSize)])) :
    ∃ r, d.complete = .ok r ∧ s.ReadAs r := by
  obtain ⟨mix, share⟩ := h.lookupShare
  obtain ⟨x, read, finite, positive⟩ := h.throughput
  have inputs : ∀ key, d.inputs.get? key = s.parameters.lookup key := by
    intro key
    rw [hd.inputs, block_told, Marker.lastOf_parameters s.distinct_parameters]
  have kind : d.kind = some .micro := by
    rw [hd.kind, Marker.last_concat, last_told rfl fun _ _ => rfl]
    cases s.implementation <;> rfl
  have unstated : d.threads = none := by
    rw [hd.threads, Marker.last_concat, last_told rfl fun _ _ => rfl]
    cases s.implementation <;> rfl
  have threads : d.statedThreads = .ok s.threads := by
    rw [Draft.statedThreads, unstated]
    exact Draft.inputNumber_ok _ (inputs _) (Decimal.readNatural?_natural h.threads.2)
  have stated : d.variant = s.implementation.map Variant.read := by
    rw [hd.variant, Marker.last_concat, last_told rfl fun _ _ => rfl]
    cases s.implementation <;> rfl
  have variant : d.completeVariant = .ok (Variant.read s.signature) := by
    have name : d.inputs.get? "ds_name".toList = some s.structureName := inputs _
    have synchronization : d.inputs.get? "sync_type".toList = some s.synchronization := inputs _
    rw [signature, Draft.completeVariant, stated]
    cases s.implementation with
    | some signature => rfl
    | none => simp only [Option.map_none, name, synchronization, Option.getD_none]
  have throughput : d.throughput = some x := by
    rw [hd.throughput, Marker.last_concat, last_told rfl fun _ _ => rfl, Marker.throughput?, read]
    rfl
  have summary : d.summary = ∅ := by
    rw [hd.summary, Marker.last_concat, last_told rfl fun _ _ => rfl]
    cases s.implementation <;> rfl
  have share' : d.setOrInput d.workloadMix Decimal.wordLimit "lookup_frac".toList = .ok mix := by
    simp only [Draft.setOrInput, hd.workloadMix]
    exact Draft.inputNumber_ok _ (inputs _) share
  have size : d.setOrInput d.initialSize Decimal.sizeLimit "init_tree_size".toList =
      .ok s.initialSize := by
    have fits : s.initialSize < Decimal.sizeLimit :=
      h.initialSize.trans (show 2 ^ 63 < Decimal.sizeLimit by decide)
    simp only [Draft.setOrInput, hd.initialSize]
    exact Draft.inputNumber_ok _ (inputs _) (Decimal.readNatural?_natural fits)
  have final : d.expectedFinalSize = some s.finalSize := by
    rw [hd.expectedFinalSize, Marker.last_concat, Marker.finalSize?,
      Decimal.readNatural?_natural (finalSize_lt h)]
    rfl
  refine ⟨_, Draft.complete_micro kind threads h.threads.1 variant throughput finite positive
    share' size final, ?_⟩
  exact
    { kind := rfl
      variant := rfl
      threads := rfl
      throughput := read
      summary := by rw [summary]
      details := ⟨mix, d.inputs, share, rfl, inputs⟩
      closeToMax := rfl }

/-- The lines of a sample say what it tells, and its last one ends the run. The rest of them
is chatter. -/
theorem read_lines (h : s.Readable) :
    s.lines.filterMap Marker.read =
      .inputsStart :: (s.told ++ [.expectedSize (Decimal.natural s.finalSize)]) := by
  have opening : ["Inputs:".toList, "====================".toList].filterMap Marker.read =
      [.inputsStart] := rfl
  have parameters : (s.parameters.map parameterLine).filterMap Marker.read =
      s.parameters.map fun p => .input p.1 p.2 :=
    Marker.filterMap_read fun p hp =>
      read_parameterLine (s.isKey_parameters p hp) (parameters_values h p hp).1
  have chatter : s.chatterLines.filterMap Marker.read = [.blank, .blank] := by
    have before : [[], "Benchmark".toList, "=======================".toList].filterMap
        Marker.read = [.blank] := rfl
    have behind : [[], "Tree initialization (at core 0)...".toList,
        "Initialization finished in 0.12 sec".toList].filterMap Marker.read = [.blank] := rfl
    have split : s.chatterLines =
        [[], "Benchmark".toList, "=======================".toList] ++
          mapLine s.structureName :: [[], "Tree initialization (at core 0)...".toList,
            "Initialization finished in 0.12 sec".toList] := rfl
    rw [split, List.filterMap_append, before,
      List.filterMap_cons_none (read_mapLine h.structureName.1), behind]
    rfl
  have implementation : (s.implementation.toList.map signatureLine).filterMap Marker.read =
      s.implementation.toList.map .implementation :=
    Marker.filterMap_read fun signature hsignature =>
      read_signatureLine (h.implementation signature (Option.mem_toList.mp hsignature))
  have figures : [[], "Time elapsed:   5.00".toList, rateLine (Decimal.fixed 3 s.throughput),
      sizeLine s.finalSize].filterMap Marker.read =
        [.blank, .throughput (Decimal.fixed 3 s.throughput),
          .expectedSize (Decimal.natural s.finalSize)] := by
    have elapsed : [[], "Time elapsed:   5.00".toList].filterMap Marker.read = [.blank] := rfl
    have split : [[], "Time elapsed:   5.00".toList, rateLine (Decimal.fixed 3 s.throughput),
        sizeLine s.finalSize] = [[], "Time elapsed:   5.00".toList] ++
          [rateLine (Decimal.fixed 3 s.throughput), sizeLine s.finalSize] := rfl
    rw [split, List.filterMap_append, elapsed, List.filterMap_cons, List.filterMap_cons,
      read_rateLine (Decimal.isWord_fixed 3 s.throughput), read_sizeLine]
    rfl
  rw [lines, List.filterMap_append, List.filterMap_append, List.filterMap_append,
    List.filterMap_append, opening, parameters, chatter, implementation, figures, told]
  simp only [List.append_assoc, List.cons_append, List.nil_append]

theorem isLine_of_mem_lines (h : s.Readable) : ∀ line ∈ s.lines, Text.IsLine line := by
  have parameters : ∀ line ∈ s.parameters.map parameterLine, Text.IsLine line :=
    List.forall_mem_map.mpr fun p hp =>
      isLine_parameterLine (s.isKey_parameters p hp) (parameters_values h p hp).1
        (parameters_values h p hp).2
  have map := isLine_mapLine h.structureName.1 h.structureName.2
  have implementation : ∀ line ∈ s.implementation.toList.map signatureLine, Text.IsLine line :=
    List.forall_mem_map.mpr fun signature hsignature =>
      isLine_signatureLine (h.implementation signature (Option.mem_toList.mp hsignature))
  have rate := isLine_rateLine (Decimal.isWord_fixed 3 s.throughput)
  simp only [lines, chatterLines, List.forall_mem_append, List.forall_mem_cons]
  refine ⟨⟨⟨⟨⟨?_, ?_, List.forall_mem_nil _⟩, parameters⟩,
    ⟨?_, ?_, ?_, map, ?_, ?_, ?_, List.forall_mem_nil _⟩⟩, implementation⟩,
    ⟨?_, ?_, rate, isLine_sizeLine s.finalSize, List.forall_mem_nil _⟩⟩
  all_goals exact ⟨by decide, by decide⟩

end Told

theorem read?_positive {t : Text}
    (h : ((Decimal.read? t).any fun x => x.isFinite && decide (0 < x)) = true) :
    ∃ x, Decimal.read? t = some x ∧ x.isFinite = true ∧ 0 < x := by
  obtain ⟨x, read, good⟩ := (Option.any_eq_true ..).mp h
  rw [Bool.and_eq_true, decide_eq_true_eq] at good
  exact ⟨x, read, good⟩

theorem readable_ofNames {structureName synchronization : Text}
    (hname : Text.trim structureName = structureName ∧ '\n' ∉ structureName)
    (hsync : Text.trim synchronization = synchronization ∧ '\n' ∉ synchronization)
    (short : ∀ line ∈ (Source.ofText (ofNames structureName synchronization).text).texts,
      Utf8.size line ≤ Options.standard.maxLineLength) :
    (ofNames structureName synchronization).Readable where
  structureName := hname
  synchronization := hsync
  threads := ⟨le_refl 1, show 1 < Decimal.wordLimit by decide⟩
  initialSize := show 100000 < 2 ^ 63 by decide
  lookupShare := ⟨50, rfl⟩
  implementation := by
    intro signature hsignature
    cases hsignature
  throughput := by
    change ∃ x, Decimal.read? (Decimal.fixed 3 1) = some x ∧ x.isFinite = true ∧ 0 < x
    exact read?_positive (by decide +kernel)
  expectedSize := by
    intro n hn
    cases hn
  short := short

theorem texts_ofText_samples {samples : List Micro} (h : ∀ s ∈ samples, s.Readable) :
    (Source.ofText (samples.flatMap text)).texts = samples.flatMap lines :=
  Source.texts_ofText_flatMap (fun s hs => text_eq (h s hs).initialSize)
    fun s hs => isLine_of_mem_lines (h s hs)

theorem size_of_mem_lines {s : Micro} (h : s.Readable) :
    ∀ line ∈ s.lines, Utf8.size line ≤ Options.standard.maxLineLength :=
  Source.forall_mem_of_texts (text_eq h.initialSize) (isLine_of_mem_lines h) h.short

/-- Wherever a sample stands in a log, its lines are one run, and its record is what a reader
of its own finds there. -/
theorem harvest_lines {s : Micro} (h : s.Readable) (start : Nat) :
    let limit := Options.standard.maxLineLength
    let segment := Line.numbered start s.lines
    Line.Segment limit segment ∧
      ∃ r, Reader.start.harvest limit segment = [.record r] ∧ s.ReadAs r := by
  intro limit segment
  obtain ⟨body, hlines⟩ : ∃ body, s.lines = "Inputs:".toList :: body := ⟨_, rfl⟩
  have read := read_lines h
  have hfirst : Marker.read "Inputs:".toList = some .inputsStart := rfl
  have short : ∀ line ∈ s.lines, Utf8.size line ≤ limit := size_of_mem_lines h
  have sound : (Marker.expectedSize (Decimal.natural s.finalSize)).defect? = none := by
    simp only [Marker.defect?, Marker.finalSize?, Decimal.readNatural?_natural (finalSize_lt h),
      Marker.unread?]
  rw [hlines, List.filterMap_cons, hfirst] at read
  rw [hlines] at short
  have run := Line.run_of_texts short hfirst rfl (List.cons.inj read).2 (told_quiet h) sound rfl
    (fun d hd => complete_told h hd) start
  rwa [← hlines] at run

/-- The texts of readable samples, one behind the other, read without a fault, and the records
are those of the samples in their order. -/
theorem reads_back {samples : List Micro} (h : ∀ s ∈ samples, s.Readable) :
    ∃ outcome, Outcome.ofSource .standard (.ofText (samples.flatMap text)) = .ok outcome ∧
      outcome.faults = [] ∧ List.Forall₂ ReadAs samples outcome.records := by
  have texts := texts_ofText_samples h
  exact Outcome.ofSource_runs texts fun s hs start => harvest_lines (h s hs) start

/-- A sample whose names look like other lines, with a rate that three places round. -/
def oddNames : Micro :=
  { structureName := "Running a: tree [ type: b ]".toList
    synchronization := []
    threads := 48
    initialSize := 0
    lookupShare := "+90".toList
    implementation := some "a(b)".toList
    throughput := 12.0625
    expectedSize := some 7 }

theorem readable_oddNames : oddNames.Readable where
  structureName := ⟨by decide, by decide⟩
  synchronization := ⟨rfl, by decide⟩
  threads := ⟨by decide, by decide⟩
  initialSize := by decide
  lookupShare := ⟨90, rfl⟩
  implementation := by
    intro signature hsignature
    obtain rfl := Option.some.inj hsignature
    exact ⟨by simp, by simp [Text.isBlank]⟩
  throughput := read?_positive (by decide +kernel)
  expectedSize := by
    intro n hn
    obtain rfl := Option.some.inj hn
    decide
  short := by decide +kernel

theorem reads_back_oddNames :
    (∀ s ∈ [oddNames, ofNames "treap".toList "rcu-htm".toList], s.Readable) ∧
      ∃ outcome, Outcome.ofSource .standard
          (.ofText (oddNames.text ++ (ofNames "treap".toList "rcu-htm".toList).text)) =
            .ok outcome ∧
        outcome.faults = [] ∧
        List.Forall₂ ReadAs [oddNames, ofNames "treap".toList "rcu-htm".toList]
          outcome.records := by
  have fresh : (ofNames "treap".toList "rcu-htm".toList).Readable :=
    readable_ofNames ⟨by decide, by decide⟩ ⟨by decide, by decide⟩ (by decide +kernel)
  have readable : ∀ s ∈ [oddNames, ofNames "treap".toList "rcu-htm".toList], s.Readable :=
    List.forall_mem_cons.mpr ⟨readable_oddNames, List.forall_mem_singleton.mpr fresh⟩
  refine ⟨readable, ?_⟩
  have read := reads_back readable
  rwa [List.flatMap_cons, List.flatMap_singleton] at read

end Sample.Micro

end RunLog
