import Mathlib
import RunLog.Proofs.ClosenessRange
import RunLog.Proofs.FiveNumberLaws
import RunLog.Proofs.RunCounts
import RunLog.Proofs.VariantLabels
import RunLog.Report.Table

/-!
# Spreads lose no run

A run takes part in spreads if it was measured and its variant's label contains the filter, and
it stands in one of them if it has a key. Its closeness then comes once, in the spread of its
key, in the order of the runs (`ofRecords_eq`). After measuring, every run has a closeness, and
it is a number, so every spread has a line and counts all of its values there
(`line?_of_numbers`). The counts of a report therefore add up to the number of runs that the
filter lets through, whatever they are grouped by.
-/
namespace RunLog

def Record.isMicro (r : Record) : Bool :=
  match r.details with
  | .micro _ _ _ _ => true
  | .workload _ _ => false

theorem Record.isSome_workloadMix (r : Record) : r.workloadMix.isSome = r.isMicro := by
  unfold workloadMix isMicro
  cases r.details <;> rfl

namespace Spread

section Keys

variable {κ : Type} {key : Record → Option κ} {filter : Option Text}

theorem keyed?_of_takesPart {r : Record} {x : Float} (measured : r.closeToMax = some x) :
    keyed? key filter r = if takesPart filter r then (key r).map (·, x) else none := by
  simp [keyed?, takesPart, measured]

theorem keyed?_of_unmeasured {r : Record} (unmeasured : r.closeToMax = none) :
    keyed? key filter r = none := by
  simp [keyed?, unmeasured]

theorem exists_keyed (records : List Record) (k : κ) :
    (∃ item ∈ records.filterMap (keyed? key filter), item.1 = k) ↔
      ∃ r ∈ records, takesPart filter r = true ∧ key r = some k := by
  simp only [List.mem_filterMap]
  constructor
  · rintro ⟨item, ⟨r, hr, hitem⟩, rfl⟩
    cases measured : r.closeToMax with
    | none => simp [keyed?_of_unmeasured measured] at hitem
    | some x =>
        rw [keyed?_of_takesPart measured] at hitem
        split_ifs at hitem with part
        obtain ⟨k, hk, rfl⟩ := Option.map_eq_some_iff.mp hitem
        exact ⟨r, hr, part, hk⟩
  · rintro ⟨r, hr, part, hk⟩
    obtain ⟨x, measured⟩ := Option.isSome_iff_exists.mp (Bool.and_eq_true_iff.mp part).1
    refine ⟨(k, x), ⟨r, hr, ?_⟩, rfl⟩
    rw [keyed?_of_takesPart measured, if_pos part, hk, Option.map_some]

variable [DecidableEq κ]

/-- The closeness of the runs with a key, in the order of the runs. -/
def valuesOf (key : Record → Option κ) (filter : Option Text) (records : List Record) (k : κ) :
    List Float :=
  (records.filter fun r => takesPart filter r && key r = some k).filterMap Record.closeToMax

theorem values_keyed (records : List Record) (k : κ) :
    ((records.filterMap (keyed? key filter)).filter (·.1 = k)).map Prod.snd =
      valuesOf key filter records k := by
  unfold valuesOf
  induction records with
  | nil => rfl
  | cons r rest ih =>
      rw [List.filterMap_cons, List.filter_cons]
      cases measured : r.closeToMax with
      | none => simpa [keyed?_of_unmeasured measured, takesPart, measured] using ih
      | some x =>
          rw [keyed?_of_takesPart measured]
          cases takesPart filter r with
          | false => simpa using ih
          | true =>
              cases hkey : key r with
              | none => simpa using ih
              | some k' =>
                  by_cases same : k' = k
                  · simpa [same, measured] using ih
                  · simpa [same] using ih

section Sorted

variable [Ord κ]

/-- The keys of the runs that take part, in ascending order. -/
def keys (key : Record → Option κ) (filter : Option Text) (records : List Record) : List κ :=
  (Groups.ofList Prod.fst (records.filterMap (keyed? key filter))).sorted.map Prod.fst

theorem mem_keys {records : List Record} {k : κ} :
    k ∈ keys key filter records ↔
      ∃ r ∈ records, takesPart filter r = true ∧ key r = some k := by
  rw [keys, (Groups.sorted_keys_perm _ _).mem_iff, List.mem_eraseDups, List.mem_map, exists_keyed]

theorem keys_ascending [Std.TransOrd κ] [Std.LawfulEqOrd κ] (records : List Record) :
    (keys key filter records).Pairwise fun a b => compare a b = .lt :=
  List.pairwise_map.mpr (Groups.sorted_ascending _ _)

/-- There is one spread for each key, with the values of the key. -/
theorem ofRecords_eq (label : κ → Text) (records : List Record) :
    ofRecords key label filter records =
      (keys key filter records).map fun k => ⟨label k, valuesOf key filter records k⟩ := by
  rw [ofRecords, keys, List.map_map]
  refine List.map_congr_left ?_
  rintro ⟨k, members⟩ hmem
  obtain ⟨-, rfl⟩ := Groups.mem_sorted.mp hmem
  exact congrArg (Spread.mk (label k)) (values_keyed records k)

/-- A spread has a value, and its values are those of runs. -/
theorem values_ofRecords {label : κ → Text} {records : List Record} {s : Spread}
    (hs : s ∈ ofRecords key label filter records) :
    s.values ≠ [] ∧ ∀ x ∈ s.values, ∃ r ∈ records, r.closeToMax = some x := by
  rw [ofRecords_eq] at hs
  obtain ⟨k, hk, rfl⟩ := List.mem_map.mp hs
  constructor
  · obtain ⟨r, hr, part, hkey⟩ := mem_keys.mp hk
    obtain ⟨x, measured⟩ := Option.isSome_iff_exists.mp (Bool.and_eq_true_iff.mp part).1
    refine List.ne_nil_of_mem (List.mem_filterMap.mpr ⟨r, ?_, measured⟩)
    exact List.mem_filter.mpr ⟨hr, by simp [part, hkey]⟩
  · intro x hx
    obtain ⟨r, hr, measured⟩ := List.mem_filterMap.mp hx
    exact ⟨r, (List.mem_filter.mp hr).1, measured⟩

theorem values_total (label : κ → Text) (records : List Record) :
    ((ofRecords key label filter records).map fun s => s.values.length).sum =
      records.countP fun r => takesPart filter r && (key r).isSome := by
  have keyed (r : Record) : (keyed? key filter r).isSome =
      (takesPart filter r && (key r).isSome) := by
    cases measured : r.closeToMax with
    | none => simp [keyed?_of_unmeasured measured, takesPart, measured]
    | some x =>
        rw [keyed?_of_takesPart measured]
        cases takesPart filter r <;> simp
  have tally := (Groups.tally (fun _ => ()) (Groups.sorted_perm (Groups.ofList Prod.fst
    (records.filterMap (keyed? key filter))))).1
  rw [List.length_filterMap_eq_countP, List.map_map] at tally
  simp only [keyed] at tally
  rw [← tally, ofRecords, List.map_map]
  congr 1
  exact List.map_congr_left fun group _ => List.length_map _

end Sorted
end Keys

section Lines

variable {s : Spread}

/-- The least value, the quartiles and the greatest value as a line shows them. -/
def numbersText (five : FiveNumbers Float) : Text :=
  numberText "min" five.min ++ ' ' :: numberText "q1" five.q1 ++ ' ' ::
    numberText "median" five.median ++ ' ' :: numberText "q3" five.q3 ++ ' ' ::
    numberText "max" five.max

def countedLine (label : Text) (five : FiveNumbers Float) (n : ℕ) : Text :=
  label ++ ": ".toList ++ numbersText five ++ " (n=".toList ++ Decimal.natural n ++ [')']

theorem fiveNumbers?_of_numbers (nonempty : s.values ≠ [])
    (numbers : ∀ x ∈ s.values, x.isNaN = false) :
    ∃ five, s.fiveNumbers? = some five ∧ five.count = s.values.length := by
  have all : s.values.filter (fun x => !x.isNaN) = s.values :=
    List.filter_eq_self.mpr fun x hx => by rw [numbers x hx]; rfl
  rw [fiveNumbers?, all, FiveNumbers.ofList?_eq_some nonempty]
  exact ⟨_, rfl, List.length_mergeSort _⟩

theorem line?_of_numbers (nonempty : s.values ≠ [])
    (numbers : ∀ x ∈ s.values, x.isNaN = false) :
    ∃ five, s.fiveNumbers? = some five ∧
      s.line? = some (countedLine s.label five s.values.length) := by
  obtain ⟨five, found, count⟩ := fiveNumbers?_of_numbers nonempty numbers
  refine ⟨five, found, ?_⟩
  rw [line?, found, Option.map_some, count]
  simp [countedLine, numbersText]

end Lines

end Spread

namespace Closeness

theorem isNaN_of_annotate {runs : List Record} (h : AllPositive runs) {r : Record}
    (hr : r ∈ annotate runs) : ∃ x, r.closeToMax = some x ∧ x.isNaN = false := by
  rw [annotate_eq_map] at hr
  obtain ⟨q, hq, rfl⟩ := List.mem_map.mp hr
  obtain ⟨⟨p, hp, attained⟩, bound⟩ := peak_spec (h.comparable q) (comparable_ne_nil hq)
  obtain ⟨finite, pos⟩ := h q hq
  obtain ⟨finite', pos'⟩ := attained ▸ h p (List.mem_filter.mp hp).1
  have own := bound q (List.mem_filter.mpr ⟨hq, decide_eq_true rfl⟩)
  have le := (Decimal.le_iff_rank (Decimal.isNaN_of_isFinite finite)
    (Decimal.isNaN_of_isFinite finite')).mpr own
  exact ⟨_, rfl, (percent_nearest finite finite' pos pos'
    ((Decimal.value_le_iff finite finite' pos pos').mp le)).isNaN⟩

end Closeness

namespace Spread

/-- Whether a measured run stands in one of the spreads of a grouping. -/
def shown (grouping : Grouping) (filter : Option Text) (r : Record) : Bool :=
  filter.all r.variant.labelContains && (grouping != .workload || r.isMicro)

theorem values_total_annotate (grouping : Grouping) (filter : Option Text) (runs : List Record) :
    ((grouping.spreads filter (Closeness.annotate runs)).map fun s => s.values.length).sum =
      runs.countP (shown grouping filter) := by
  rw [Closeness.annotate_eq_map]
  cases grouping <;> rw [Grouping.spreads, values_total, List.countP_map] <;>
    refine List.countP_congr fun r _ => ?_
  · simp [takesPart, Closeness.measured, shown]
  · simp [takesPart, Closeness.measured, shown]
  · have mix : (Closeness.measured runs r).workloadMix.isSome = r.isMicro :=
      Record.isSome_workloadMix _
    simp [takesPart, shown, mix]
    simp [Closeness.measured]

theorem mem_spreads {grouping : Grouping} {filter : Option Text} {records : List Record}
    {s : Spread} (hs : s ∈ grouping.spreads filter records) :
    s.values ≠ [] ∧ ∀ x ∈ s.values, ∃ r ∈ records, r.closeToMax = some x := by
  cases grouping <;> exact values_ofRecords hs

/-- The lines of spreads whose values are numbers: one for each spread, with its count. -/
theorem lines_of_numbers {spreads : List Spread}
    (numbers : ∀ s ∈ spreads, s.values ≠ [] ∧ ∀ x ∈ s.values, x.isNaN = false) :
    ∃ lines, render spreads = Table.lines lines ∧
      List.Forall₂ (fun s line => ∃ five, s.fiveNumbers? = some five ∧
        line = countedLine s.label five s.values.length) spreads lines := by
  refine ⟨spreads.filterMap line?, rfl, ?_⟩
  induction spreads with
  | nil => exact .nil
  | cons s rest ih =>
      rw [List.forall_mem_cons] at numbers
      obtain ⟨five, found, line⟩ := line?_of_numbers numbers.1.1 numbers.1.2
      rw [List.filterMap_cons_some line]
      exact .cons ⟨five, found, rfl⟩ (ih numbers.2)

/-- Spreads lose no run and invent none. There is one for each key of the runs that were
measured and whose label contains the filter, in ascending order of the keys, under the text of
its key; its values are the closeness of these runs in their order. After measuring runs with
throughputs above zero, each spread has a line that ends with the number of its values, and
these numbers add up to the number of runs whose label contains the filter, or, by share of
lookups, of those that are runs of the micro benchmark. -/
theorem counts_add_up {κ : Type} [DecidableEq κ] [Ord κ] [Std.TransOrd κ] [Std.LawfulEqOrd κ]
    (records : List Record) (filter : Option Text) :
    (∀ (key : Record → Option κ) (label : κ → Text), ∃ keys : List κ,
      keys.Pairwise (fun a b => compare a b = .lt) ∧
      (∀ k, k ∈ keys ↔ ∃ r ∈ records, takesPart filter r = true ∧ key r = some k) ∧
      ofRecords key label filter records = keys.map fun k =>
        { label := label k
          values := (records.filter fun r => takesPart filter r && key r = some k).filterMap
            Record.closeToMax }) ∧
    (Closeness.AllPositive records → ∀ grouping : Grouping,
      let spreads := grouping.spreads filter (Closeness.annotate records)
      (∃ lines, render spreads = Table.lines lines ∧
        List.Forall₂ (fun s line => ∃ five, s.fiveNumbers? = some five ∧
          line = countedLine s.label five s.values.length) spreads lines) ∧
      (spreads.map fun s => s.values.length).sum =
        records.countP fun r => filter.all r.variant.labelContains &&
          (grouping != .workload || r.isMicro)) := by
  refine ⟨fun key label => ⟨keys key filter records, keys_ascending records, fun _ => mem_keys,
    ofRecords_eq label records⟩, fun positive grouping => ⟨lines_of_numbers fun s hs => ?_,
    values_total_annotate grouping filter records⟩⟩
  obtain ⟨nonempty, known⟩ := mem_spreads hs
  refine ⟨nonempty, fun x hx => ?_⟩
  obtain ⟨r, hr, measured⟩ := known x hx
  obtain ⟨y, measured', number⟩ := Closeness.isNaN_of_annotate positive hr
  exact Option.some.inj (measured.symm.trans measured') ▸ number

/-- Two runs of the micro benchmark and three others. -/
def mixedRuns : List Record :=
  Closeness.farApart ++ Closeness.threeRuns

theorem counts_add_up_mixedRuns :
    Closeness.AllPositive mixedRuns ∧
      (∃ keys : List ℕ, keys.Pairwise (fun a b => compare a b = .lt) ∧ 4 ∈ keys ∧ 2 ∉ keys ∧
        (ofRecords (fun r => some r.threads) Decimal.natural none mixedRuns).map Spread.label =
          keys.map Decimal.natural) ∧
      ((Grouping.workload.spreads none (Closeness.annotate mixedRuns)).map
        fun s => s.values.length).sum = 2 ∧
      ((Grouping.threads.spreads none (Closeness.annotate mixedRuns)).map
        fun s => s.values.length).sum = 5 := by
  have positive : Closeness.AllPositive mixedRuns := by
    refine List.forall_mem_append.mpr
      ⟨Closeness.AllPositive.of_complete Closeness.farApart_complete, fun r hr => ?_⟩
    simp only [Closeness.threeRuns, List.mem_cons, List.not_mem_nil, or_false] at hr
    rcases hr with rfl | rfl | rfl <;> exact ⟨by rfl, by decide⟩
  obtain ⟨grouped, counted⟩ := counts_add_up (κ := ℕ) mixedRuns none
  obtain ⟨keys, ascending, members, spreads⟩ := grouped (fun r => some r.threads) Decimal.natural
  refine ⟨positive, ⟨keys, ascending, (members 4).mpr (by decide +kernel),
    fun h => absurd ((members 2).mp h) (by decide +kernel), ?_⟩, ?_, ?_⟩
  · rw [spreads, List.map_map]
    rfl
  · exact (counted positive .workload).2.trans (by decide +kernel)
  · exact (counted positive .threads).2.trans (by decide +kernel)

end Spread
end RunLog
