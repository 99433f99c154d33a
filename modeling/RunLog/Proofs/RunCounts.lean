import Mathlib
import RunLog.Counts
import RunLog.Proofs.Groupings
import RunLog.Proofs.RunConservation
import RunLog.Proofs.StoreHistory

/-!
# The counts of a store balance

Each of the three lists of counts tallies a grouping of the same records, and a
grouping loses no record and doubles none, so each list adds up to the number of runs
(`Groups.tally`). That number in turn balances with the logs: reading a log without
strictness adds one record or one diagnostic for each line that begins a run and passes
the buffer, and a log that cannot be read adds nothing (`Store.ingest_balance`, and from
it `Store.performAll_balance` for any number of logs).
-/
namespace RunLog

namespace Variant

instance : Std.TransOrd Variant :=
  inferInstanceAs (Std.TransCmp (compareLex (compareOn base) (compareOn subtype)))

instance : Std.LawfulEqOrd Variant where
  eq_of_compare {v w} h := by
    obtain ⟨bases, subtypes⟩ := compareLex_eq_eq.mp h
    have base : v.base = w.base := Std.LawfulEqCmp.eq_of_compare bases
    have subtype : v.subtype = w.subtype := Std.LawfulEqCmp.eq_of_compare subtypes
    cases v
    cases w
    simp_all

end Variant

/-- Groups of items, in whatever order, as pairs of a label and a number: the numbers add up to
the number of items, none of them is zero, and each is that of the items with one key. -/
theorem Groups.tally {κ α β : Type} [DecidableEq κ] {key : α → κ} {items : List α}
    (label : κ → β) {groups : List (κ × List α)} (h : groups.Perm (ofList key items).entries) :
    let counts := groups.map fun (k, members) => (label k, members.length)
    (counts.map Prod.snd).sum = items.length ∧ 0 ∉ counts.map Prod.snd ∧
      counts = (groups.map Prod.fst).map fun k => (label k, items.countP (key · = k)) := by
  intro counts
  have numbers : counts.map Prod.snd = groups.map fun group => group.2.length := List.map_map
  refine ⟨?_, ?_, ?_⟩
  · have together := ((h.flatMap_right Prod.snd).trans (members_perm key items)).length_eq
    rw [numbers, ← together, List.length_flatMap]
  · rw [numbers, List.mem_map]
    rintro ⟨group, hgroup, none⟩
    exact members_ne_nil (h.mem_iff.mp hgroup) (List.length_eq_zero_iff.mp none)
  · rw [List.map_map]
    refine List.map_congr_left fun group hgroup => ?_
    have members := (mem_entries.mp (h.mem_iff.mp hgroup)).2
    simp only [Function.comp_apply, members, List.countP_eq_length_filter]

namespace Outcome

/-- How many lines of a source begin a run. -/
def starts (limit : Nat) (source : Source) : Nat :=
  source.lines.countP (Line.beginsRun limit)

theorem ofSource_balance {options : Options} {source : Source} {outcome : Outcome}
    (h : ofSource options source = .ok outcome) :
    outcome.records.length + outcome.faults.length =
      starts options.maxLineLength (source.buffered options.bufferSize) := by
  rw [ofSource_ok h, ofFindings, length_records_add_faults, Reader.length_harvest, starts,
    List.countP_eq_length_filter]

end Outcome

namespace Store

/-- The sources that can be read to their end. -/
def readable (options : Options) (loads : List (Text × Source)) : List (Text × Source) :=
  loads.filter fun (_, source) => (Outcome.ofSource options source).isOk

/-- How many lines that begin a run pass the buffer, in sources that are read. -/
def startsRead (options : Options) (loads : List (Text × Source)) : Nat :=
  (loads.map fun (_, source) =>
    Outcome.starts options.maxLineLength (source.buffered options.bufferSize)).sum

theorem startsRead_of_pos {options : Options} (room : 0 < options.bufferSize)
    (loads : List (Text × Source)) :
    startsRead options loads =
      (loads.map fun (_, source) => Outcome.starts options.maxLineLength source).sum := by
  simp only [startsRead, Source.buffered_of_pos room]

theorem startsRead_roomless {options : Options} (none : options.bufferSize = 0)
    (loads : List (Text × Source)) : startsRead options loads = 0 := by
  simp only [startsRead, none, Source.buffered, Outcome.starts, Source.lines_empty,
    List.countP_nil, List.map_const', List.sum_replicate, smul_zero]

/-- To read one source is to gain its starts, as records or as diagnostics, or nothing. -/
theorem ingest_balance (s : Store) (name : Text) (source : Source) :
    let last := (s.perform (.ingest name source)).1
    let read := readable s.options [(name, source)]
    last.options = s.options ∧
    last.sources = s.sources + read.length ∧
    last.size + last.diagnostics.length =
      s.size + s.diagnostics.length + startsRead s.options read := by
  cases h : Outcome.ofSource s.options source with
  | ok outcome =>
      have balance := Outcome.ofSource_balance h
      simp only [perform_ingest_ok h, readable, h, add, size, Except.isOk, Except.toBool,
        List.filter_cons_of_pos, List.filter_nil, List.length_append, List.length_map, startsRead,
        List.map_cons, List.map_nil, List.sum_singleton, List.length_singleton, ← balance,
        true_and]
      omega
  | error f => simp [perform_ingest_error h, readable, h, Except.isOk, Except.toBool, startsRead]

theorem performAll_balance (s : Store) (loads : List (Text × Source)) :
    let last := (s.performAll (loads.map fun (name, source) => .ingest name source)).1
    let read := readable s.options loads
    last.sources = s.sources + read.length ∧
    last.size + last.diagnostics.length =
      s.size + s.diagnostics.length + startsRead s.options read := by
  induction loads generalizing s with
  | nil => exact ⟨rfl, rfl⟩
  | cons load rest ih =>
      obtain ⟨options, sources, total⟩ := ingest_balance s load.1 load.2
      obtain ⟨later, laterTotal⟩ := ih (s.perform (.ingest load.1 load.2)).1
      rw [options] at later laterTotal
      have split : readable s.options (load :: rest) =
          readable s.options [load] ++ readable s.options rest :=
        List.filter_append [load] rest
      simp only [split, startsRead, List.length_append, List.map_append, List.sum_append]
      constructor
      · exact later.trans (by rw [sources, Nat.add_assoc])
      · exact laterTotal.trans (by rw [total, Nat.add_assoc]; rfl)

end Store

namespace Counts

/-- The counts of a store by kind, by variant and by threads each add up to its runs, and none
of them is zero. Kinds are counted in the order in which they are first seen, variants and
thread counts in ascending order, and every kind, variant and thread count once. If the store
was filled by reading sources without strictness, every line that begins a run, in all the
sources that could be read, is a run or was dropped, as long as the buffer has room; behind
one without room nothing is counted. -/
theorem ofStore_balances (s : Store) (options : Options) (loads : List (Text × Source)) :
    let c := ofStore s
    let lenient := { options with strict := false }
    let filled := ((Store.empty lenient).performAll
      (loads.map fun (name, source) => .ingest name source)).1
    let read := Store.readable lenient loads
    ((c.perKind.map Prod.snd).sum = c.runs ∧
      (c.perVariant.map Prod.snd).sum = c.runs ∧
      (c.perThreads.map Prod.snd).sum = c.runs ∧
      0 ∉ c.perKind.map Prod.snd ++ c.perVariant.map Prod.snd ++ c.perThreads.map Prod.snd ∧
      c.perKind = (s.records.map Record.kind).eraseDups.map
        (fun kind => (kind.name, s.records.countP (·.kind = kind))) ∧
      (∃ variants : List Variant, variants.Pairwise (compare · · = .lt) ∧
        c.perVariant = variants.map fun v => (v.label, s.records.countP (·.variant = v))) ∧
      ∃ threads : List Nat, threads.Pairwise (· < ·) ∧
        c.perThreads = threads.map fun n => (n, s.records.countP (·.threads = n))) ∧
    (ofStore filled).sources = read.length ∧
      (0 < options.bufferSize → (ofStore filled).runs + (ofStore filled).dropped =
        (read.map fun (_, source) => Outcome.starts options.maxLineLength source).sum) ∧
      (options.bufferSize = 0 → (ofStore filled).runs + (ofStore filled).dropped = 0) := by
  intro c lenient filled read
  constructor
  · obtain ⟨kinds, kindsSome, kindsEq⟩ :=
      Groups.tally Kind.name (List.Perm.refl (Groups.ofList Record.kind s.records).entries)
    obtain ⟨variants, variantsSome, variantsEq⟩ :=
      Groups.tally Variant.label (Groups.sorted_perm (Groups.ofList Record.variant s.records))
    obtain ⟨threads, threadsSome, threadsEq⟩ :=
      Groups.tally id (Groups.sorted_perm (Groups.ofList Record.threads s.records))
    refine ⟨kinds, variants, threads, ?_, ?_, ⟨_, ?_, variantsEq⟩, _, ?_, threadsEq⟩
    · simp only [List.mem_append, not_or]
      exact ⟨⟨kindsSome, variantsSome⟩, threadsSome⟩
    · exact kindsEq.trans (by rw [Groups.map_fst_entries, Groups.keys_ofList])
    · exact List.pairwise_map.mpr (Groups.sorted_ascending Record.variant s.records)
    · exact List.pairwise_map.mpr
        ((Groups.sorted_ascending Record.threads s.records).imp Nat.compare_eq_lt.mp)
  · obtain ⟨sources, total⟩ := Store.performAll_balance (Store.empty lenient) loads
    have balance : (ofStore filled).runs + (ofStore filled).dropped =
        Store.startsRead lenient read := total.trans (Nat.zero_add _)
    refine ⟨sources.trans (Nat.zero_add _), fun room => ?_, fun none => ?_⟩
    · exact balance.trans (Store.startsRead_of_pos room read)
    · exact balance.trans (Store.startsRead_roomless none read)

/-- A log of two runs, and one that fails behind the start of a third. -/
def brokenLoads : List (Text × Source) :=
  [("a.log".toList, .ofText Outcome.interruptedLog),
    ("b.log".toList, ⟨Utf8.encode "Inputs:\n".toList, some "connection reset".toList⟩)]

theorem ofStore_balances_brokenLoads :
    let s := ((Store.empty .standard).performAll
      (brokenLoads.map fun (name, source) => .ingest name source)).1
    0 < Options.standard.bufferSize ∧ (ofStore s).sources = 1 ∧
      (ofStore s).runs + (ofStore s).dropped = 2 := by
  intro s
  have room : 0 < Options.standard.bufferSize := by decide
  have begun : ((Store.readable .standard brokenLoads).map fun (_, source) =>
      Outcome.starts Options.standard.maxLineLength source) = [2] := by decide +kernel
  have one := congrArg List.length begun
  rw [List.length_map] at one
  obtain ⟨sources, balance, -⟩ := (ofStore_balances s .standard brokenLoads).2
  exact ⟨room, sources.trans one, (balance room).trans (congrArg List.sum begun)⟩

/-- Without room in the buffer, the log counts among the sources and neither of its runs among
the runs or the dropped ones. -/
theorem interrupted_uncounted :
    let options := { Options.standard with bufferSize := 0 }
    let log := Source.ofText Outcome.interruptedLog
    let s := ((Store.empty options).performAll [.ingest "a.log".toList log]).1
    (ofStore s).sources = 1 ∧ (ofStore s).runs + (ofStore s).dropped = 0 ∧
      Outcome.starts options.maxLineLength log = 2 := by
  intro options log s
  have unread : s = (Store.empty options).add "a.log".toList ⟨[], [], 0⟩ :=
    congrArg Prod.fst (Store.perform_ingest_ok (Outcome.ofSource_roomless options rfl log))
  rw [unread]
  exact ⟨rfl, rfl, by decide +kernel⟩

end Counts

end RunLog
