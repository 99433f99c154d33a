import Mathlib
import RunLog.Proofs.Leaderboards
import RunLog.Proofs.LineFeeds
import RunLog.Proofs.VariantLabels
import RunLog.Report.Export
import RunLog.Report.Table

/-!
# Reports have one line for each item

A report is put together line by line, with a line feed behind each. What stands on
a line are fixed words, numbers, and texts of records, and none of them has a line
feed in it if the records were read from sources (`Record.Parsed.feedless`). So the
lines of a report are those it was put together from, and they can be counted: one for
each board and each entry, for each series and each point, for each spread with five
numbers, and one row for each record.
-/
namespace RunLog

/-- The text is made of the lines, each of which ends with a line feed. -/
def Text.Prints (t : Text) (lines : List Text) : Prop :=
  Text.pieces '\n' t = lines ++ [[]]

theorem Table.prints_lines {lines : List Text} (h : ∀ line ∈ lines, '\n' ∉ line) :
    Text.Prints (Table.lines lines) lines := by
  induction lines with
  | nil => exact Text.pieces_single (by simp [Table.lines])
  | cons line rest ih =>
      rw [List.forall_mem_cons] at h
      have shape : Table.lines (line :: rest) = line ++ '\n' :: Table.lines rest := by
        simp [Table.lines]
      rw [Text.Prints, shape, Text.pieces_append h.1, ih h.2, List.cons_append]

theorem Variant.feedless_label {v : Variant} (h : ∀ t ∈ v.texts, '\n' ∉ t) : '\n' ∉ v.label := by
  have base : '\n' ∉ v.base := h _ List.mem_cons_self
  have subtype : '\n' ∉ v.subtype.getD noSubtype := by
    cases hs : v.subtype with
    | none => decide
    | some t => exact h t (List.mem_cons_of_mem _ (by simp [hs]))
  simp [label, base, subtype]

namespace Record.Feedless

variable {r : Record}

theorem kind (h : r.Feedless) : '\n' ∉ r.kind.name :=
  h _ List.mem_cons_self

theorem label (h : r.Feedless) : '\n' ∉ r.variant.label :=
  Variant.feedless_label fun t ht => h t (by simp [texts, ht])

theorem schemaFile (h : r.Feedless) {path : Text} (hpath : r.schemaFile = some path) :
    '\n' ∉ path := by
  unfold Record.schemaFile at hpath
  split at hpath
  · rename_i hd
    exact h path (by simp [texts, hd, Details.texts, hpath])
  · cases hpath

end Record.Feedless

variable {records : List Record}

namespace Leaderboard

theorem feedless_boardLines {criterion : Criterion} (h : ∀ r ∈ records, r.Feedless)
    {b : Leaderboard} (hb : b ∈ ofRecords criterion records) :
    ∀ line ∈ boardLines b, '\n' ∉ line := by
  obtain ⟨⟨r, hr, kind, -⟩, entries⟩ := mem_ofRecords.mp hb
  have name : '\n' ∉ b.kind.name := kind ▸ (h r hr).kind
  refine List.forall_mem_cons.mpr ⟨by simp [name], fun line hline => ?_⟩
  obtain ⟨e, he, rfl⟩ := List.mem_map.mp hline
  obtain ⟨ranked, order, shown⟩ := exists_ranked criterion (members records b.kind b.threads)
  rw [entries, shown] at he
  obtain ⟨⟨q, n⟩, hq, rfl⟩ := List.mem_map.mp he
  have hq : q ∈ records :=
    (List.mem_filter.mp (order.perm.mem_iff.mp (List.fst_mem_of_mem_zipIdx hq))).1
  unfold entryLine
  simp only
  split <;> simp [(h q hq).label]

theorem countP_boardLines (b : Leaderboard) :
    (boardLines b).countP (Text.startsWith "Bench ".toList) = 1 ∧
      (boardLines b).countP (Text.startsWith "    ".toList) = b.entries.length := by
  have entry (e : BoardEntry) : Text.startsWith "Bench ".toList (entryLine e) = false ∧
      Text.startsWith "    ".toList (entryLine e) = true := ⟨rfl, rfl⟩
  have none : (b.entries.map entryLine).countP (Text.startsWith "Bench ".toList) = 0 := by
    rw [List.countP_map]
    exact List.countP_eq_zero.mpr fun e _ => ne_true_of_eq_false (entry e).1
  have all : (b.entries.map entryLine).countP (Text.startsWith "    ".toList) =
      b.entries.length := by
    rw [List.countP_map]
    exact List.countP_eq_length.mpr fun e _ => (entry e).2
  constructor
  · rw [boardLines, List.countP_cons, none]
    rfl
  · rw [boardLines, List.countP_cons, all]
    rfl

theorem printed {criterion : Criterion} (h : ∀ r ∈ records, r.Feedless) :
    let boards := ofRecords criterion records
    let entries := (boards.map fun b => b.entries.length).sum
    ∃ lines, Text.Prints (render boards) lines ∧
      lines.countP (Text.startsWith "Bench ".toList) = boards.length ∧
      lines.countP (Text.startsWith "    ".toList) = entries ∧
      lines.length = boards.length + entries := by
  intro boards entries
  refine ⟨boards.flatMap boardLines, Table.prints_lines fun line hline => ?_, ?_, ?_, ?_⟩
  · obtain ⟨b, hb, hline⟩ := List.mem_flatMap.mp hline
    exact feedless_boardLines h hb line hline
  · simp only [List.countP_flatMap, Function.comp_def, (countP_boardLines _).1, List.map_const',
      List.sum_replicate, smul_eq_mul, mul_one]
  · simp only [List.countP_flatMap, Function.comp_def, (countP_boardLines _).2, entries]
  · simp only [List.length_flatMap, boardLines, List.length_cons, List.length_map,
      List.sum_map_add, List.map_const', List.sum_replicate, smul_eq_mul, mul_one, entries]
    exact Nat.add_comm _ _

end Leaderboard

namespace Chart

theorem feedless_seriesLines {s : Series} (h : '\n' ∉ s.label) :
    ∀ line ∈ seriesLines s, '\n' ∉ line := by
  refine List.forall_mem_cons.mpr ⟨by simp [h], fun line hline => ?_⟩
  obtain ⟨point, -, rfl⟩ := List.mem_map.mp hline
  simp [pointLine, Table.padLeft]

theorem feedless_labels {highlight : Option Text} (h : ∀ r ∈ records, r.Feedless) {c : Chart}
    (hc : c ∈ all highlight records) :
    '\n' ∉ c.title ∧ ∀ s ∈ c.series, '\n' ∉ s.label := by
  rw [all, Groups.keys_ofList] at hc
  obtain ⟨kind, hkind, rfl⟩ := List.mem_map.mp hc
  obtain ⟨r, hr, rfl⟩ := List.mem_map.mp (List.mem_eraseDups.mp hkind)
  refine ⟨by simp [best, (h r hr).kind], fun s hs => ?_⟩
  have label := List.mem_map_of_mem hs (f := Series.label)
  rw [labels_series] at label
  rcases List.mem_cons.mp label with first | hlabel
  · rw [first]
    decide
  · obtain ⟨v, hv, same⟩ := List.mem_map.mp hlabel
    obtain ⟨q, hq, rfl⟩ := List.mem_map.mp (List.mem_eraseDups.mp hv)
    rw [← same]
    exact (h q (List.mem_filter.mp hq).1).label

theorem printed {highlight : Option Text} (h : ∀ r ∈ records, r.Feedless) {c : Chart}
    (hc : c ∈ all highlight records) :
    ∃ lines, Text.Prints (render c) lines ∧
      lines.length = 1 + c.series.length + (c.series.map Series.size).sum := by
  refine ⟨c.title :: c.series.flatMap seriesLines, Table.prints_lines ?_, ?_⟩
  · obtain ⟨title, labels⟩ := feedless_labels h hc
    refine List.forall_mem_cons.mpr ⟨title, fun line hline => ?_⟩
    obtain ⟨s, hs, hline⟩ := List.mem_flatMap.mp hline
    exact feedless_seriesLines (labels s hs) line hline
  · simp only [List.length_cons, List.length_flatMap, seriesLines, List.length_map,
      List.sum_map_add, List.map_const', List.sum_replicate, smul_eq_mul, mul_one]
    change _ = 1 + c.series.length + (c.series.map fun s => s.points.length).sum
    omega

end Chart

namespace Spread

theorem feedless_line? {s : Spread} {line : Text} (h : '\n' ∉ s.label)
    (hline : s.line? = some line) : '\n' ∉ line := by
  obtain ⟨five, -, rfl⟩ := Option.map_eq_some_iff.mp hline
  simp [numberText, h]

theorem exists_key {κ : Type} [DecidableEq κ] [Ord κ] {key : Record → Option κ} {label : κ → Text}
    {filter : Option Text} {s : Spread} (hs : s ∈ ofRecords key label filter records) :
    ∃ r ∈ records, ∃ k, key r = some k ∧ s.label = label k := by
  obtain ⟨⟨k, members⟩, hmem, rfl⟩ := List.mem_map.mp hs
  obtain ⟨⟨⟨k', x⟩, hkeyed, rfl⟩, -⟩ := Groups.mem_sorted.mp hmem
  obtain ⟨r, hr, keyed⟩ := List.mem_filterMap.mp hkeyed
  refine ⟨r, hr, k', ?_, rfl⟩
  unfold keyed? at keyed
  split at keyed
  · cases keyed
  · split_ifs at keyed
    obtain ⟨found, hkey, same⟩ := Option.map_eq_some_iff.mp keyed
    cases same
    exact hkey

theorem feedless_labels {grouping : Grouping} {filter : Option Text}
    (h : ∀ r ∈ records, r.Feedless) :
    ∀ s ∈ grouping.spreads filter records, '\n' ∉ s.label := by
  intro s hs
  cases grouping with
  | variant =>
      obtain ⟨r, hr, v, hv, same⟩ := exists_key hs
      cases hv
      rw [same]
      exact (h r hr).label
  | threads =>
      obtain ⟨-, -, n, -, same⟩ := exists_key hs
      rw [same]
      exact Decimal.feedless_natural n
  | workload =>
      obtain ⟨-, -, n, -, same⟩ := exists_key hs
      rw [same]
      exact Decimal.feedless_natural n

theorem printed (grouping : Grouping) (filter : Option Text) (h : ∀ r ∈ records, r.Feedless) :
    let spreads := grouping.spreads filter records
    ∃ lines, Text.Prints (render spreads) lines ∧
      lines.length = (spreads.filter fun s => s.fiveNumbers?.isSome).length := by
  intro spreads
  refine ⟨spreads.filterMap line?, Table.prints_lines fun line hline => ?_, ?_⟩
  · obtain ⟨s, hs, found⟩ := List.mem_filterMap.mp hline
    exact feedless_line? (feedless_labels h s hs) found
  · rw [List.length_filterMap_eq_countP, List.countP_eq_length_filter]
    simp only [line?, Option.isSome_map]

end Spread

namespace Export

theorem feedless_field {t : Text} (h : '\n' ∉ t) : '\n' ∉ Csv.field t := by
  have quoted : '\n' ∉ t.flatMap Csv.quotedChar := by
    intro hmem
    obtain ⟨c, hc, hquoted⟩ := List.mem_flatMap.mp hmem
    unfold Csv.quotedChar at hquoted
    split_ifs at hquoted
    · revert hquoted
      decide
    · exact h (List.mem_singleton.mp hquoted ▸ hc)
  unfold Csv.field
  split_ifs
  · simp [quoted]
  · exact h

theorem feedless_join {mark : Char} (hmark : mark ≠ '\n') {fields : List Text}
    (h : ∀ field ∈ fields, '\n' ∉ field) : '\n' ∉ Text.join mark fields := by
  fun_induction Text.join mark fields with
  | case1 => simp
  | case2 field => exact h field List.mem_cons_self
  | case3 field rest _ ih =>
      rw [List.forall_mem_cons] at h
      simp [h.1, hmark.symm, ih h.2]

theorem feedless_write (x : Float) : '\n' ∉ Csv.layout.write x :=
  Decimal.Layout.feedless_write (by decide) x

theorem feedless_fields {r : Record} (h : r.Feedless) : ∀ field ∈ fields r, '\n' ∉ field := by
  have number (n : Option Nat) : '\n' ∉ optional Decimal.natural n := by
    cases n <;> simp [optional]
  have schema : '\n' ∉ optional id r.schemaFile := by
    cases hs : r.schemaFile with
    | none => simp [optional]
    | some path => exact h.schemaFile hs
  have closeness : '\n' ∉ optional Csv.layout.write r.closeToMax := by
    cases r.closeToMax with
    | none => simp [optional]
    | some x => exact feedless_write x
  simp [fields, h.kind, h.label, feedless_write, number, schema, closeness]

theorem printed (h : ∀ r ∈ records, r.Feedless) :
    ∃ lines, Text.Prints (render .csv records) lines ∧
      lines.length = if records.isEmpty then 0 else records.length + 1 := by
  have shape : render .csv records =
      Table.lines ((rows records).map fun fields => Text.join ',' (fields.map Csv.field)) := by
    rw [render, Csv.document, Table.lines, List.flatMap_map]
    rfl
  have feedless : ∀ fields ∈ rows records, ∀ field ∈ fields, '\n' ∉ field := by
    unfold rows
    split_ifs
    · simp
    · refine List.forall_mem_cons.mpr ⟨by decide, fun fields hfields => ?_⟩
      obtain ⟨r, hr, rfl⟩ := List.mem_map.mp hfields
      exact feedless_fields (h r hr)
  have lines : ∀ line ∈ (rows records).map fun fields => Text.join ',' (fields.map Csv.field),
      '\n' ∉ line := by
    intro line hline
    obtain ⟨fields, hfields, rfl⟩ := List.mem_map.mp hline
    refine feedless_join (by decide) fun field hfield => ?_
    obtain ⟨t, ht, rfl⟩ := List.mem_map.mp hfield
    exact feedless_field (feedless fields hfields t ht)
  refine ⟨_, shape ▸ Table.prints_lines lines, ?_⟩
  rw [List.length_map, rows]
  split_ifs <;> simp

end Export

/-- Whatever sources a store reads and however often it measures, no text of its records has a
line feed in it, and its reports have one line for each item: a leaderboard one for each board
and one for each entry, which are told by their openings; a chart one for its title, each
series and each point; the spreads one for each that has five numbers; and the exported rows
one for each record behind one for their names, or none at all without records. -/
theorem Store.reports_itemized (options : Options) (requests : List Request)
    (unpushed : ∀ r, .push r ∉ requests) :
    let records := ((empty options).performAll requests).1.records
    (∀ r ∈ records, ∀ t ∈ r.texts, '\n' ∉ t) ∧
    (∀ criterion,
      let boards := Leaderboard.ofRecords criterion records
      let entries := (boards.map fun b => b.entries.length).sum
      ∃ lines, Text.Prints (Leaderboard.render boards) lines ∧
        lines.countP (Text.startsWith "Bench ".toList) = boards.length ∧
        lines.countP (Text.startsWith "    ".toList) = entries ∧
        lines.length = boards.length + entries) ∧
    (∀ highlight, ∀ c ∈ Chart.all highlight records,
      ∃ lines, Text.Prints (Chart.render c) lines ∧
        lines.length = 1 + c.series.length + (c.series.map Series.size).sum) ∧
    (∀ (grouping : Grouping) (filter : Option Text),
      let spreads := grouping.spreads filter records
      ∃ lines, Text.Prints (Spread.render spreads) lines ∧
        lines.length = (spreads.filter fun s => s.fiveNumbers?.isSome).length) ∧
    ∃ lines, Text.Prints (Export.render .csv records) lines ∧
      lines.length = if records.isEmpty then 0 else records.length + 1 := by
  intro records
  have feedless : ∀ r ∈ records, r.Feedless := fun r hr =>
    (parsed_of_unpushed options unpushed r hr).feedless
  exact ⟨feedless, fun _ => Leaderboard.printed feedless, fun _ _ => Chart.printed feedless,
    fun grouping filter => Spread.printed grouping filter feedless, Export.printed feedless⟩

theorem Store.reports_itemized_namesakesLog :
    let requests := [.ingest "a.log".toList namesakesLog, .annotate]
    let records := ((empty .standard).performAll requests).1.records
    (∀ r, .push r ∉ requests) ∧ (∀ r ∈ records, ∀ t ∈ r.texts, '\n' ∉ t) ∧
      (∃ lines, Text.Prints (Export.render .csv records) lines ∧ lines.length = 3) ∧
      ∀ c ∈ Chart.all none records, ∃ lines, Text.Prints (Chart.render c) lines ∧
        lines.length = 1 + c.series.length + (c.series.map Series.size).sum := by
  intro requests records
  have unpushed : ∀ r, .push r ∉ requests := by simp [requests]
  obtain ⟨outcome, found, variants⟩ := namesakesLog_variants
  have two : records.length = 2 := by
    have parsed := congrArg List.length variants
    rw [List.length_map] at parsed
    have measured : records = Closeness.annotate outcome.records :=
      congrArg Closeness.annotate (Request.records_of_ok found)
    rw [measured, Closeness.annotate_eq_map, List.length_map, parsed]
    rfl
  obtain ⟨feedless, -, charts, -, lines, printed, count⟩ :=
    reports_itemized .standard requests unpushed
  refine ⟨unpushed, feedless, ⟨lines, printed, ?_⟩, charts none⟩
  have some : records.isEmpty = false := by
    rw [List.isEmpty_eq_false_iff, ← List.length_pos_iff, two]
    decide
  change lines.length = if records.isEmpty then 0 else records.length + 1 at count
  rw [count, some, two]
  rfl

end RunLog
