import Mathlib
import RunLog.Counts
import RunLog.Proofs.BestCharts
import RunLog.Proofs.RecordValidity
import RunLog.Proofs.WrittenTexts
import RunLog.Report.Table

/-!
# What a label tells of a variant

A label names the base and, in parentheses, the subtype. The base that is read from
a signature has no opening parenthesis, so both can be told from a label, with one
exception: an absent subtype is shown as `None`, and a signature may name that as its
subtype. Two variants under one label are equal or such a pair (`label_eq_iff`), and
the labels of a report are different as long as no such pair is among its runs
(`nodup_labels_iff`).
-/
namespace RunLog

namespace Variant

variable {v w : Variant}

/-- Two variants that only differ in that one has no subtype, and the other the one that
labels show then. -/
def Namesakes (v w : Variant) : Prop :=
  v.base = w.base ∧
    (v.subtype = none ∧ w.subtype = some noSubtype ∨
      v.subtype = some noSubtype ∧ w.subtype = none)

theorem Namesakes.ne (h : v.Namesakes w) : v ≠ w := by
  rintro rfl
  obtain ⟨-, ⟨absent, named⟩ | ⟨named, absent⟩⟩ := h <;> cases absent.symm.trans named

theorem base_read (signature : Text) : '(' ∉ (read signature).base := by
  unfold read
  simp only
  split
  · rename_i base rest found
    exact fun hmem => (Text.cut?_eq_some found).2 (Text.trim_subset base hmem)
  · rename_i uncut
    exact fun hmem => Text.cut?_eq_none_iff.mp uncut (Text.trim_subset _ hmem)

theorem cut?_label (h : '(' ∉ v.base) :
    Text.cut? '(' v.label = some (v.base ++ [' '], v.subtype.getD noSubtype ++ [')']) := by
  have shape : v.label = (v.base ++ [' ']) ++ '(' :: (v.subtype.getD noSubtype ++ [')']) := by
    simp [label]
  have before : '(' ∉ v.base ++ [' '] := by simpa using h
  rw [shape, Text.cut?_append before]

theorem label_eq_iff (hv : '(' ∉ v.base) (hw : '(' ∉ w.base) :
    v.label = w.label ↔ v = w ∨ v.Namesakes w := by
  constructor
  · intro same
    have cuts := cut?_label hv
    rw [same, cut?_label hw] at cuts
    simp only [Option.some.injEq, Prod.mk.injEq, List.append_cancel_right_eq] at cuts
    obtain ⟨base, subtype⟩ := cuts
    obtain ⟨base', subtype'⟩ := v
    obtain ⟨base'', subtype''⟩ := w
    cases subtype' <;> cases subtype'' <;> simp_all [Namesakes]
  · rintro (rfl | ⟨base, ⟨absent, named⟩ | ⟨named, absent⟩⟩)
    · rfl
    · simp [label, base, absent, named]
    · simp [label, base, absent, named]

/-- No two of the runs have variants that are namesakes. -/
def Distinguished (runs : List Record) : Prop :=
  ∀ r ∈ runs, ∀ q ∈ runs, ¬ r.variant.Namesakes q.variant

/-- Labels that show each variant of some runs once are different if no two of these variants
are namesakes, and only then. -/
theorem nodup_labels_iff {runs : List Record} (plain : ∀ r ∈ runs, '(' ∉ r.variant.base) :
    ((runs.map Record.variant).eraseDups.map label).Nodup ↔ Distinguished runs := by
  rw [List.nodup_map_iff_inj_on (Groups.nodup_eraseDups _)]
  simp only [List.mem_eraseDups, List.forall_mem_map]
  refine forall₂_congr fun r hr => forall₂_congr fun q hq => ?_
  rw [label_eq_iff (plain r hr) (plain q hq)]
  constructor
  · exact fun distinct namesakes => namesakes.ne (distinct (.inr namesakes))
  · rintro distinct (same | namesakes)
    · exact same
    · exact absurd namesakes distinct

end Variant

theorem Draft.Told.variant {said : Marker → Prop} {d : Draft} (h : d.Told said) {v : Variant}
    (hv : d.variant = some v) : ∃ signature, v = Variant.read signature := by
  rcases h.field (fun _ _ _ => rfl) (fun hnote => (Draft.note_ok hnote).2.variant) hv with
    start | start | ⟨m, -, told⟩
  · cases start
  · cases start
  · cases m <;> cases told <;> exact ⟨_, rfl⟩

theorem Draft.completeVariant_ok {d : Draft} {v : Variant} (h : d.completeVariant = .ok v) :
    d.variant = some v ∨ ∃ signature, v = Variant.read signature := by
  unfold completeVariant at h
  split at h
  · cases h
    exact .inl ‹_›
  · split at h
    · cases h
    · split at h
      · cases h
        exact .inr ⟨_, rfl⟩
      · cases h
        exact .inr ⟨_, rfl⟩

theorem Record.Parsed.variant {r : Record} (h : r.Parsed) :
    ∃ signature, r.variant = Variant.read signature := by
  refine h.of_told (p := fun r => ∃ signature, r.variant = Variant.read signature)
    (fun _ _ _ _ _ _ => trivial) Iff.rfl fun told complete => ?_
  rcases Draft.completeVariant_ok (Draft.complete_ok complete).variant with known | read
  · exact told.variant known
  · exact read

namespace Spread

def takesPart (filter : Option Text) (r : Record) : Bool :=
  r.closeToMax.isSome && filter.all r.variant.labelContains

theorem variants_keyed (filter : Option Text) (records : List Record) :
    (records.filterMap (keyed? (fun r => some r.variant) filter)).map Prod.fst =
      (records.filter (takesPart filter)).map Record.variant := by
  induction records with
  | nil => rfl
  | cons r rest ih =>
      rw [List.filterMap_cons, List.filter_cons]
      cases hmeasured : r.closeToMax with
      | none => simpa [keyed?, takesPart, hmeasured] using ih
      | some x =>
          cases hshown : filter.all r.variant.labelContains <;>
            simpa [keyed?, takesPart, hmeasured, hshown] using ih

theorem labels_spreads (filter : Option Text) (records : List Record) :
    ((Grouping.variant.spreads filter records).map Spread.label).Perm
      (((records.filter (takesPart filter)).map Record.variant).eraseDups.map Variant.label) := by
  have keys := (Groups.sorted_keys_perm Prod.fst
    (records.filterMap (keyed? (fun r => some r.variant) filter))).map Variant.label
  rw [variants_keyed, List.map_map] at keys
  rw [Grouping.spreads, ofRecords, List.map_map]
  exact keys

end Spread

theorem Counts.labels_perVariant (s : Store) :
    ((ofStore s).perVariant.map Prod.fst).Perm
      ((s.records.map Record.variant).eraseDups.map Variant.label) := by
  have keys := (Groups.sorted_keys_perm Record.variant s.records).map Variant.label
  rw [List.map_map] at keys
  rw [ofStore, List.map_map]
  exact keys

namespace Chart

/-- Whether the chart of a kind shows a series for the variant of a run. -/
def highlights (kind : Kind) (highlight : Option Text) (r : Record) : Bool :=
  r.kind = kind && highlight.any r.variant.labelContains

theorem labels_series (kind : Kind) (highlight : Option Text) (records : List Record) :
    (best kind highlight records).series.map Series.label =
      "best".toList ::
        ((records.filter (highlights kind highlight)).map Record.variant).eraseDups.map
          Variant.label := by
  have labels (variants : List Variant) (runs : List Record) :
      (variants.map (Series.ofVariant · runs)).map Series.label = variants.map Variant.label := by
    rw [List.map_map]
    rfl
  rw [best, List.map_cons, labels]
  congr 2
  cases highlight with
  | none =>
      have hidden : records.filter (highlights kind none) = [] :=
        List.filter_eq_nil_iff.mpr fun r _ => by simp [highlights]
      rw [hidden]
      rfl
  | some part =>
      rw [highlighted_eq, ← Groups.eraseDups_filter, List.filter_map, List.filter_filter]
      congr 3
      funext r
      exact Bool.and_comm _ _

/-- The label of the first series is none of a variant. -/
theorem best_ne_label (v : Variant) : v.label ≠ "best".toList := by
  intro same
  have last := congrArg List.getLast? same
  rw [Variant.label, List.getLast?_concat] at last
  cases last

end Chart

/-- Labels identify variants as far as they can: two variants that are read from signatures
have one label only if they are equal or namesakes. In the spreads by variant, in the counts
and in the charts of records that were parsed, no two labels are equal, unless two runs that
are shown have variants that are namesakes. -/
theorem Store.labels_identify (s : Store) (parsed : ∀ r ∈ s.records, r.Parsed) :
    (∀ first second : Text,
      (Variant.read first).label = (Variant.read second).label ↔
        Variant.read first = Variant.read second ∨
          (Variant.read first).Namesakes (Variant.read second)) ∧
    (∀ filter : Option Text,
      ((Grouping.variant.spreads filter s.records).map Spread.label).Nodup ↔
        Variant.Distinguished (s.records.filter (Spread.takesPart filter))) ∧
    (((Counts.ofStore s).perVariant.map Prod.fst).Nodup ↔ Variant.Distinguished s.records) ∧
    ∀ (kind : Kind) (highlight : Option Text),
      ((Chart.best kind highlight s.records).series.map Series.label).Nodup ↔
        Variant.Distinguished (s.records.filter (Chart.highlights kind highlight)) := by
  have plain : ∀ r ∈ s.records, '(' ∉ r.variant.base := by
    intro r hr
    obtain ⟨signature, read⟩ := (parsed r hr).variant
    rw [read]
    exact Variant.base_read signature
  have part (p : Record → Bool) : ∀ r ∈ s.records.filter p, '(' ∉ r.variant.base :=
    fun r hr => plain r (List.mem_filter.mp hr).1
  refine ⟨fun first second => Variant.label_eq_iff (Variant.base_read _) (Variant.base_read _),
    fun filter => ?_, ?_, fun kind highlight => ?_⟩
  · rw [(Spread.labels_spreads filter s.records).nodup_iff, Variant.nodup_labels_iff (part _)]
  · rw [(Counts.labels_perVariant s).nodup_iff, Variant.nodup_labels_iff plain]
  · have new : "best".toList ∉
        ((s.records.filter (Chart.highlights kind highlight)).map Record.variant).eraseDups.map
          Variant.label := fun hmem => by
      obtain ⟨v, -, same⟩ := List.mem_map.mp hmem
      exact Chart.best_ne_label v same
    rw [Chart.labels_series, List.nodup_cons, and_iff_right new, Variant.nodup_labels_iff (part _)]

/-- Two runs, of which the second names the subtype that the first lacks. -/
def namesakesLog : Source :=
  .ofText (Table.lines
    (["mem_allocator initialized!", "Running YCSB workload", "RBT implementation treap",
      "running 2 threads", "Throughput(Ops/usec): 1.5", "Expected size of MAP: 10",
      "mem_allocator initialized!", "Running YCSB workload", "[ type: treap (None) ]",
      "running 2 threads", "Throughput(Ops/usec): 2.5", "Expected size of MAP: 10"].map
        String.toList))

theorem namesakesLog_variants : ∃ outcome,
    Outcome.ofSource .standard namesakesLog = .ok outcome ∧
      outcome.records.map Record.variant =
        [Variant.read "treap".toList, Variant.read "treap (None)".toList] := by
  rw [Outcome.ofSource_of_pos (by decide), namesakesLog, Source.lines, Table.lines,
    Source.texts_ofText (Text.forall_isLine (by decide))]
  exact ⟨_, rfl, rfl⟩

theorem read_treap : Variant.read "treap".toList = ⟨"treap".toList, none⟩ := by cbv

theorem read_treap_none :
    Variant.read "treap (None)".toList = ⟨"treap".toList, some "None".toList⟩ := by cbv

/-- Their variants are counted apart, under one label. -/
theorem namesakes_share_label : ∃ outcome,
    Outcome.ofSource .standard namesakesLog = .ok outcome ∧
      ¬ ((Counts.ofStore (Store.ofRecords outcome.records)).perVariant.map Prod.fst).Nodup ∧
      Variant.read "treap".toList ≠ Variant.read "treap (None)".toList ∧
      (Variant.read "treap".toList).label = (Variant.read "treap (None)".toList).label := by
  have different : Variant.read "treap".toList ≠ Variant.read "treap (None)".toList := by
    rw [read_treap, read_treap_none]
    decide
  have same : (Variant.read "treap".toList).label = (Variant.read "treap (None)".toList).label := by
    rw [read_treap, read_treap_none]
    rfl
  obtain ⟨outcome, found, variants⟩ := namesakesLog_variants
  refine ⟨outcome, found, ?_, different, same⟩
  rw [(Counts.labels_perVariant (Store.ofRecords outcome.records)).nodup_iff]
  change ¬ ((outcome.records.map Record.variant).eraseDups.map Variant.label).Nodup
  have both : (outcome.records.map Record.variant).eraseDups =
      outcome.records.map Record.variant := by
    rw [variants, read_treap, read_treap_none]
    rfl
  rw [both, variants, List.map_cons, List.map_cons, same]
  simp

theorem labels_identify_namesakesLog :
    let s := ((Store.empty .standard).performAll
      [.ingest "a.log".toList namesakesLog]).1
    (∀ r ∈ s.records, r.Parsed) ∧ s.records.length = 2 ∧
      (((Counts.ofStore s).perVariant.map Prod.fst).Nodup ↔
        Variant.Distinguished s.records) ∧
      ((Variant.read "treap".toList).label = (Variant.read "treap (None)".toList).label ↔
        Variant.read "treap".toList = Variant.read "treap (None)".toList ∨
          (Variant.read "treap".toList).Namesakes (Variant.read "treap (None)".toList)) := by
  intro s
  have parsed : ∀ r ∈ s.records, r.Parsed := Store.parsed_of_unpushed .standard (by simp)
  obtain ⟨outcome, found, variants⟩ := namesakesLog_variants
  have records : s.records = outcome.records := Request.records_of_ok found
  have two := congrArg List.length variants
  rw [List.length_map] at two
  obtain ⟨labels, -, counted, -⟩ := Store.labels_identify s parsed
  exact ⟨parsed, records ▸ two, counted, labels _ _⟩

end RunLog
