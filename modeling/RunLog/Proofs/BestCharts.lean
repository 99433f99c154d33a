import Mathlib
import RunLog.Proofs.ClosenessLaw
import RunLog.Proofs.Leaderboards

/-!
# Best charts beside leaderboards

A chart of best runs is computed apart from the leaderboards: it groups the runs
of one kind by their threads, and for each highlighted variant filters and
groups them again. Both ways lead to the greatest throughput of a group of runs,
which decides the point of a series (`Series.mem_bestPoints`) and the head of a
board (`Leaderboard.head_greatest`). The rest is about which group lies in which.
-/
namespace RunLog

theorem Leaderboard.head_greatest {runs : List Record} {kind : Kind} {threads : Nat} {x : Float} :
    (∃ b ∈ ofRecords .throughput runs, b.kind = kind ∧ b.threads = threads ∧
      b.entries.head?.map BoardEntry.throughput = some x) ↔
    Decimal.Greatest ((members runs kind threads).map Record.throughput) x := by
  obtain ⟨ranked, hranked, hshown⟩ := exists_ranked .throughput (members runs kind threads)
  have head : (entriesOf .throughput (members runs kind threads)).head?.map
      BoardEntry.throughput = ranked.head?.map Record.throughput := by
    rw [hshown]
    cases ranked <;> rfl
  constructor
  · rintro ⟨b, hb, rfl, rfl, hx⟩
    rw [(mem_ofRecords.mp hb).2, head] at hx
    obtain ⟨r, hr, rfl⟩ := Option.map_eq_some_iff.mp hx
    exact hranked.head_greatest hr
  · intro h
    obtain ⟨q, hq, -⟩ := List.mem_map.mp h.1
    obtain ⟨hmem, hgroup⟩ := List.mem_filter.mp hq
    obtain ⟨hkind, hthreads⟩ := of_decide_eq_true hgroup
    have filled : ranked ≠ [] := List.ne_nil_of_mem (hranked.perm.mem_iff.mpr hq)
    have first : ranked.head? = some (ranked.head filled) := List.head?_eq_some_head filled
    refine ⟨⟨kind, threads, entriesOf .throughput (members runs kind threads)⟩,
      mem_ofRecords.mpr ⟨⟨q, hmem, hkind, hthreads⟩, rfl⟩, rfl, rfl, ?_⟩
    rw [head, first, Option.map_some]
    exact congrArg some ((hranked.head_greatest first).unique h)

namespace Series

theorem mem_threads {runs : List Record} {threads : Nat} :
    threads ∈ (bestPoints runs).map Prod.fst ↔ ∃ r ∈ runs, r.threads = threads := by
  simp only [bestPoints, List.mem_map, List.mem_filterMap, Option.map_eq_some_iff, Prod.exists]
  constructor
  · rintro ⟨_, _, ⟨t, members, hmem, r, -, heq⟩, rfl⟩
    cases heq
    exact (Groups.mem_sorted.mp hmem).1
  · rintro ⟨r, hr, rfl⟩
    have filled : runs.filter (·.threads = r.threads) ≠ [] :=
      List.ne_nil_of_mem (List.mem_filter.mpr ⟨hr, decide_eq_true rfl⟩)
    obtain ⟨top, htop⟩ := Ranking.exists_best .throughput filled
    exact ⟨_, _, ⟨r.threads, _, Groups.mem_sorted.mpr ⟨⟨r, hr, rfl⟩, rfl⟩, top, htop, rfl⟩, rfl⟩

theorem le_best {runs : List Record} (h : Closeness.AllPositive runs) (part : Record → Bool)
    {threads : Nat} {x : Float} (hx : (threads, x) ∈ bestPoints (runs.filter part)) :
    ∃ top, (threads, top) ∈ bestPoints runs ∧ x ≤ top := by
  have hgreatest := mem_bestPoints.mp hx
  obtain ⟨q, hq, rfl⟩ := List.mem_map.mp hgreatest.1
  obtain ⟨hpart, hthreads⟩ := List.mem_filter.mp hq
  have hrun := (List.mem_filter.mp hpart).1
  obtain ⟨⟨t, top⟩, htop, rfl⟩ :=
    List.mem_map.mp (mem_threads.mpr ⟨q, hrun, of_decide_eq_true hthreads⟩)
  have bound := mem_bestPoints.mp htop
  obtain ⟨p, hp, hpt⟩ := List.mem_map.mp bound.1
  have number := Decimal.isNaN_of_isFinite (h q hrun).1
  have number' := Decimal.isNaN_of_isFinite (h p (List.mem_filter.mp hp).1).1
  refine ⟨top, htop, Decimal.le_of_totalLE number (hpt ▸ number') ?_⟩
  exact bound.2 _ (List.mem_map_of_mem (List.mem_filter.mpr ⟨hrun, hthreads⟩))

/-- The best run at a thread count is also the best one of its own variant. -/
theorem exists_variant {runs : List Record} {threads : Nat} {top : Float}
    (h : (threads, top) ∈ bestPoints runs) :
    ∃ v ∈ runs.map Record.variant, (threads, top) ∈ bestPoints (runs.filter (·.variant = v)) := by
  have hgreatest := mem_bestPoints.mp h
  obtain ⟨p, hp, rfl⟩ := List.mem_map.mp hgreatest.1
  obtain ⟨hrun, hthreads⟩ := List.mem_filter.mp hp
  have own : p ∈ runs.filter (·.variant = p.variant) :=
    List.mem_filter.mpr ⟨hrun, decide_eq_true rfl⟩
  refine ⟨p.variant, List.mem_map_of_mem hrun, mem_bestPoints.mpr ⟨?_, ?_⟩⟩
  · exact List.mem_map_of_mem (List.mem_filter.mpr ⟨own, hthreads⟩)
  · intro y hy
    obtain ⟨q, hq, rfl⟩ := List.mem_map.mp hy
    obtain ⟨hpart, hq'⟩ := List.mem_filter.mp hq
    exact hgreatest.2 _
      (List.mem_map_of_mem (List.mem_filter.mpr ⟨(List.mem_filter.mp hpart).1, hq'⟩))

theorem best_perm {runs others : List Record} (h : runs.Perm others) : best runs = best others := by
  rw [best, best, bestPoints_perm h]

theorem ofVariant_perm (v : Variant) {runs others : List Record} (h : runs.Perm others) :
    ofVariant v runs = ofVariant v others := by
  rw [ofVariant, ofVariant, bestPoints_perm (h.filter _)]

end Series

namespace Chart

theorem labelContains_nil (v : Variant) : v.labelContains [] = true := by
  unfold Variant.labelContains
  cases v.label <;> rfl

theorem highlighted_eq (part : Text) (runs : List Record) :
    highlighted (some part) runs =
      (runs.map Record.variant).eraseDups.filter (Variant.labelContains · part) := by
  rw [highlighted, Groups.keys_ofList]

theorem highlighted_perm (part : Text) {runs others : List Record} (h : runs.Perm others) :
    (highlighted (some part) runs).Perm (highlighted (some part) others) := by
  rw [highlighted_eq, highlighted_eq]
  refine ((List.perm_ext_iff_of_nodup (Groups.nodup_eraseDups _)
    (Groups.nodup_eraseDups _)).mpr fun v => ?_).filter _
  rw [List.mem_eraseDups, List.mem_eraseDups, (h.map Record.variant).mem_iff]

/-- The series `s` shows the runs of a variant: at each thread count that they have, in
ascending order, the greatest throughput. -/
structure Shows (runs : List Record) (v : Variant) (s : Series) : Prop where
  label : s.label = v.label
  ascending : s.threads.Pairwise (· < ·)
  points : ∀ threads x, (threads, x) ∈ s.points ↔
    Decimal.Greatest
      ((runs.filter fun r => r.threads = threads ∧ r.variant = v).map Record.throughput) x

theorem shows_ofVariant (runs : List Record) (v : Variant) :
    Shows runs v (Series.ofVariant v runs) where
  label := rfl
  ascending := Series.bestPoints_ascending _
  points := by
    intro threads x
    rw [Series.ofVariant, Series.mem_bestPoints, List.filter_filter]
    simp only [Bool.decide_and]

/-- The chart of a kind begins with the series `best`, which has the thread counts of the
kind's runs in ascending order and the throughput at the head of each of its boards. One series
follows for each of the kind's variants that is highlighted, in the order in which they are
first seen. No point of theirs lies above the best one, and if every variant is highlighted, the
best one is among them. Permuting the records moves the series of the variants, and changes
nothing else. -/
theorem best_agrees (kind : Kind) (part : Text) (records : List Record)
    (h : Closeness.AllPositive records) :
    let runs := records.filter (·.kind = kind)
    let variants := (runs.map Record.variant).eraseDups.filter (Variant.labelContains · part)
    ∃ top others, (best kind (some part) records).series = top :: others ∧
      top.label = "best".toList ∧ top.threads.Pairwise (· < ·) ∧
      (∀ threads, threads ∈ top.threads ↔ ∃ r ∈ records, r.kind = kind ∧ r.threads = threads) ∧
      (∀ threads x, (threads, x) ∈ top.points ↔
        ∃ b ∈ Leaderboard.ofRecords .throughput records, b.kind = kind ∧ b.threads = threads ∧
          b.entries.head?.map BoardEntry.throughput = some x) ∧
      List.Forall₂ (Shows runs) variants others ∧
      (∀ s ∈ others, ∀ threads x, (threads, x) ∈ s.points →
        ∃ y, (threads, y) ∈ top.points ∧ x ≤ y) ∧
      (part = [] → ∀ threads y, (threads, y) ∈ top.points →
        ∃ s ∈ others, (threads, y) ∈ s.points) ∧
      ∀ permuted : List Record, permuted.Perm records → ∃ moved : List Series,
        (best kind (some part) permuted).series = top :: moved ∧ moved.Perm others := by
  intro runs variants
  have positive : Closeness.AllPositive runs := fun r hr => h r (List.mem_filter.mp hr).1
  have hvariants : highlighted (some part) runs = variants := highlighted_eq part runs
  refine ⟨Series.best runs, variants.map (Series.ofVariant · runs), ?_, rfl,
    Series.bestPoints_ascending runs, ?_, ?_, ?_, ?_, ?_, ?_⟩
  · rw [← hvariants]
    rfl
  · intro threads
    change threads ∈ (Series.bestPoints runs).map Prod.fst ↔ _
    simp [Series.mem_threads, runs, and_assoc]
  · intro threads x
    rw [Leaderboard.head_greatest, ← Leaderboard.members_eq]
    exact Series.mem_bestPoints
  · rw [List.forall₂_map_right_iff]
    exact List.forall₂_same.mpr fun v _ => shows_ofVariant runs v
  · intro s hs threads x hx
    obtain ⟨v, -, rfl⟩ := List.mem_map.mp hs
    exact Series.le_best positive _ hx
  · rintro rfl threads y hy
    obtain ⟨v, hv, hpoint⟩ := Series.exists_variant hy
    refine ⟨_, List.mem_map_of_mem (List.mem_filter.mpr ⟨List.mem_eraseDups.mpr hv, ?_⟩), hpoint⟩
    exact labelContains_nil v
  · intro permuted hperm
    have hruns : (permuted.filter (·.kind = kind)).Perm runs := hperm.filter _
    refine ⟨(highlighted (some part) (permuted.filter (·.kind = kind))).map
      (Series.ofVariant · runs), ?_, ?_⟩
    · simp only [best, Series.best_perm hruns, Series.ofVariant_perm _ hruns]
    · rw [← hvariants]
      exact (highlighted_perm part hruns).map _

/-- Two variants of one kind, which share a thread count, and a run of another kind. -/
def twoVariants : List Record :=
  let run (kind : Kind) (base : String) (threads : Nat) (throughput : Float) : Record :=
    { kind := kind
      variant := ⟨base.toList, none⟩
      threads := threads
      throughput := throughput
      summary := ∅
      details := .workload none ∅
      closeToMax := none }
  [run .tpcc "treap" 8 3, run .tpcc "treap" 4 2, run .ycsb "treap" 4 9, run .tpcc "bst" 4 8]

theorem best_agrees_twoVariants :
    Closeness.AllPositive twoVariants ∧ twoVariants.reverse.Perm twoVariants ∧
      ∃ top others, (best .tpcc (some []) twoVariants).series = top :: others ∧
        (4, 8) ∈ top.points ∧
        (∃ b ∈ Leaderboard.ofRecords .throughput twoVariants, b.kind = .tpcc ∧ b.threads = 4 ∧
          b.entries.head?.map BoardEntry.throughput = some 8) ∧
        (∃ s ∈ others, (4, 8) ∈ s.points) ∧ others.length = 2 ∧
        ∃ moved : List Series, moved.Perm others ∧
          (best .tpcc (some []) twoVariants.reverse).series = top :: moved := by
  have positive : Closeness.AllPositive twoVariants := by
    intro r hr
    simp only [twoVariants, List.mem_cons, List.not_mem_nil, or_false] at hr
    rcases hr with rfl | rfl | rfl | rfl <;> exact ⟨by rfl, by decide⟩
  have swapped : twoVariants.reverse.Perm twoVariants := List.reverse_perm twoVariants
  obtain ⟨top, others, hseries, -, -, -, hboards, hvariants, -, hall, hmoved⟩ :=
    best_agrees .tpcc [] twoVariants positive
  obtain ⟨rfl, -⟩ := List.cons.inj hseries
  have values : (((twoVariants.filter (·.kind = .tpcc)).filter (·.threads = 4)).map
      Record.throughput) = [2, 8] := by rfl
  have peak : (4, 8) ∈ (Series.best (twoVariants.filter (·.kind = .tpcc))).points := by
    refine Series.mem_bestPoints.mpr ?_
    rw [values]
    exact ⟨by simp, by decide⟩
  obtain ⟨moved, hseries', hperm⟩ := hmoved _ swapped
  have two : others.length = 2 := hvariants.length_eq.symm.trans (by decide)
  exact ⟨positive, swapped, _, others, hseries, peak, (hboards 4 8).mp peak, hall rfl 4 8 peak, two,
    moved, hperm, hseries'⟩

end Chart
end RunLog
