import Mathlib
import RunLog.Closeness
import RunLog.Proofs.FloatOrder
import RunLog.Proofs.Groupings

/-!
# What annotating does

The values are found configuration by configuration and then written down by
place. Every place comes up exactly with the value of its run, measured against
the peak of the runs of its configuration, so annotating acts on each run by
itself (`annotate_eq_map`). It reads no value that is there already, and changes
nothing else. The peak of positive throughputs is the greatest of them, whatever
their order, and never the zero from which it is looked for.
-/
namespace RunLog

/-- The record before it was measured. -/
def Record.unmeasured (r : Record) : Record :=
  { r with closeToMax := none }

namespace Closeness

/-- The runs with the configuration of a run. -/
def comparable (runs : List Record) (r : Record) : List Record :=
  runs.filter (Configuration.ofRecord · = Configuration.ofRecord r)

/-- The run, measured against the runs of its configuration. -/
def measured (runs : List Record) (r : Record) : Record :=
  { r with closeToMax := some (percent r.throughput (peak (comparable runs r))) }

theorem mem_values {runs : List Record} {place : Nat} {x : Float} :
    (place, x) ∈ values runs ↔
      ∃ r, runs[place]? = some r ∧ x = percent r.throughput (peak (comparable runs r)) := by
  have group (k : Configuration) :
      (runs.zipIdx.filter (fun e => Configuration.ofRecord e.1 = k)).map Prod.fst =
        runs.filter (Configuration.ofRecord · = k) := by
    have places : runs.zipIdx.map Prod.fst = runs := List.zipIdx_map_fst 0 runs
    conv_rhs => rw [← places, List.filter_map]
    rfl
  simp only [values, valuesOfMembers, List.mem_flatMap, List.mem_map, Prod.exists]
  constructor
  · rintro ⟨k, members, hmem, r, i, hr, heq⟩
    obtain ⟨-, rfl⟩ := Groups.mem_entries.mp hmem
    obtain ⟨hplace, hkey⟩ := List.mem_filter.mp hr
    cases heq
    refine ⟨r, List.mem_zipIdx_iff_getElem?.mp hplace, ?_⟩
    rw [comparable, ← group, of_decide_eq_true hkey]
  · rintro ⟨r, hr, rfl⟩
    have hplace : (r, place) ∈ runs.zipIdx := List.mem_zipIdx_iff_getElem?.mpr hr
    refine ⟨Configuration.ofRecord r, _, Groups.mem_entries.mpr ⟨⟨(r, place), hplace, rfl⟩, rfl⟩,
      r, place, List.mem_filter.mpr ⟨hplace, decide_eq_true rfl⟩, ?_⟩
    rw [comparable, ← group]

/-- A place that is written down once or more, always with one value, holds that value. -/
theorem getElem?_writeDown {values : List (Nat × Float)} {place : Nat} {x : Float}
    (same : ∀ y, (place, y) ∈ values → y = x) (runs : Array Record) :
    (writeDown runs values)[place]? =
      if place ∈ values.map Prod.fst then
        runs[place]?.map fun r => { r with closeToMax := some x }
      else runs[place]? := by
  induction values generalizing runs with
  | nil => rfl
  | cons first rest ih =>
      obtain ⟨i, y⟩ := first
      have later := ih (fun z hz => same z (List.mem_cons_of_mem _ hz))
        (runs.modify i fun r => { r with closeToMax := some y })
      rw [writeDown, List.foldl_cons, ← writeDown, later, Array.getElem?_modify]
      by_cases here : i = place
      · subst here
        have hy : y = x := same y List.mem_cons_self
        cases runs[i]? <;> simp [hy]
      · have places : place ∈ ((i, y) :: rest).map Prod.fst ↔ place ∈ rest.map Prod.fst := by
          simp [Ne.symm here]
        simp only [if_neg here, places]

theorem annotate_eq_map (runs : List Record) : annotate runs = runs.map (measured runs) := by
  refine List.ext_getElem? fun place => ?_
  rw [annotate, Array.getElem?_toList, List.getElem?_map]
  cases hr : runs[place]? with
  | none =>
      have fresh : ∀ y, (place, y) ∈ values runs → y = 0 := by
        intro y hy
        obtain ⟨r, hplace, -⟩ := mem_values.mp hy
        simp [hr] at hplace
      rw [getElem?_writeDown fresh, List.getElem?_toArray, hr]
      simp
  | some r =>
      have same : ∀ y, (place, y) ∈ values runs →
          y = percent r.throughput (peak (comparable runs r)) := by
        intro y hy
        obtain ⟨q, hq, rfl⟩ := mem_values.mp hy
        cases hr.symm.trans hq
        rfl
      have written : place ∈ (values runs).map Prod.fst :=
        List.mem_map.mpr ⟨_, mem_values.mpr ⟨r, hr, rfl⟩, rfl⟩
      rw [getElem?_writeDown same, if_pos written, List.getElem?_toArray, hr, Option.map_some,
        Option.map_some, measured]

theorem annotate_unmeasured (runs : List Record) :
    annotate (runs.map Record.unmeasured) = annotate runs := by
  have group (r : Record) : comparable (runs.map Record.unmeasured) r.unmeasured =
      (comparable runs r).map Record.unmeasured := by
    rw [comparable, List.filter_map]
    rfl
  have best (others : List Record) : peak (others.map Record.unmeasured) = peak others := by
    rw [peak, List.map_map]
    rfl
  simp only [annotate_eq_map, List.map_map, Function.comp_def, measured, group, best]
  rfl

theorem unmeasured_annotate (runs : List Record) :
    (annotate runs).map Record.unmeasured = runs.map Record.unmeasured := by
  rw [annotate_eq_map, List.map_map]
  rfl

/-- Annotating sees of a run only what was known before it was measured. -/
theorem annotate_congr {runs others : List Record}
    (h : runs.map Record.unmeasured = others.map Record.unmeasured) :
    annotate runs = annotate others := by
  rw [← annotate_unmeasured runs, h, annotate_unmeasured]

theorem larger_eq_or (a b : Float) : larger a b = a ∨ larger a b = b := by
  unfold larger
  split_ifs
  · exact .inr rfl
  · exact .inl rfl

theorem rank_larger {a b : Float} (ha : a.isNaN = false) (hb : b.isNaN = false) :
    Decimal.rank (larger a b) = max (Decimal.rank a) (Decimal.rank b) := by
  have order := Decimal.lt_iff_rank ha hb
  unfold larger
  split_ifs with hlt
  · exact (max_eq_right (order.mp hlt).le).symm
  · exact (max_eq_left (not_lt.mp (mt order.mpr hlt))).symm

theorem foldl_larger {xs : List Float} {start : Float} (hstart : start.isNaN = false)
    (hxs : ∀ x ∈ xs, x.isNaN = false) :
    xs.foldl larger start ∈ start :: xs ∧
      ∀ x ∈ start :: xs, Decimal.rank x ≤ Decimal.rank (xs.foldl larger start) := by
  induction xs generalizing start with
  | nil => simp
  | cons x rest ih =>
      have hx : x.isNaN = false := hxs x List.mem_cons_self
      have hnext : (larger start x).isNaN = false := by
        rcases larger_eq_or start x with h | h
        · rw [h, hstart]
        · rw [h, hx]
      obtain ⟨hmem, hbound⟩ := ih hnext fun y hy => hxs y (List.mem_cons_of_mem _ hy)
      have hfirst := hbound _ List.mem_cons_self
      rw [rank_larger hstart hx] at hfirst
      rw [List.foldl_cons]
      constructor
      · rcases List.mem_cons.mp hmem with h | h
        · rw [h]
          rcases larger_eq_or start x with h | h <;> simp [h]
        · exact List.mem_cons_of_mem _ (List.mem_cons_of_mem _ h)
      · simp only [List.forall_mem_cons] at hbound ⊢
        exact ⟨(le_max_left _ _).trans hfirst, (le_max_right _ _).trans hfirst, hbound.2⟩

def AllPositive (runs : List Record) : Prop :=
  ∀ r ∈ runs, r.throughput.isFinite = true ∧ 0 < r.throughput

theorem peak_spec {runs : List Record} (h : AllPositive runs) (hne : runs ≠ []) :
    (∃ q ∈ runs, q.throughput = peak runs) ∧
      ∀ q ∈ runs, Decimal.rank q.throughput ≤ Decimal.rank (peak runs) := by
  have zero : (0 : Float).isNaN = false := by rfl
  have numbers : ∀ x ∈ runs.map Record.throughput, x.isNaN = false := by
    intro x hx
    obtain ⟨r, hr, rfl⟩ := List.mem_map.mp hx
    exact Decimal.isNaN_of_isFinite (h r hr).1
  obtain ⟨hmem, hbound⟩ := foldl_larger zero numbers
  have bound : ∀ q ∈ runs, Decimal.rank q.throughput ≤ Decimal.rank (peak runs) := fun q hq =>
    hbound _ (List.mem_cons_of_mem _ (List.mem_map_of_mem hq))
  refine ⟨?_, bound⟩
  rcases List.mem_cons.mp hmem with hzero | hattained
  · -- The zero it starts from lies below every throughput there is.
    obtain ⟨q, hq⟩ := List.exists_mem_of_ne_nil runs hne
    have positive := (Decimal.lt_iff_rank zero (Decimal.isNaN_of_isFinite (h q hq).1)).mp (h q hq).2
    have below := bound q hq
    rw [peak, hzero] at below
    exact absurd (positive.trans_le below) (lt_irrefl _)
  · obtain ⟨q, hq, hthroughput⟩ := List.mem_map.mp hattained
    exact ⟨q, hq, hthroughput⟩

theorem peak_perm {runs others : List Record} (h : AllPositive runs) (hperm : runs.Perm others) :
    peak runs = peak others := by
  by_cases hne : runs = []
  · subst hne
    rw [hperm.nil_eq]
  · have hne' : others ≠ [] := fun hnil => hne (hnil ▸ hperm).eq_nil
    have h' : AllPositive others := fun r hr => h r (hperm.mem_iff.mpr hr)
    obtain ⟨⟨q, hq, hqt⟩, hbound⟩ := peak_spec h hne
    obtain ⟨⟨p, hp, hpt⟩, hbound'⟩ := peak_spec h' hne'
    have below := hbound' q (hperm.mem_iff.mp hq)
    have above := hbound p (hperm.mem_iff.mpr hp)
    rw [hqt] at below
    rw [hpt] at above
    have positive : 0 < Decimal.rank (peak runs) := hqt ▸ Decimal.rank_pos (h q hq).1 (h q hq).2
    exact Decimal.eq_of_rank_eq positive.ne' (le_antisymm below above)

theorem comparable_ne_nil {runs : List Record} {r : Record} (h : r ∈ runs) :
    comparable runs r ≠ [] :=
  List.ne_nil_of_mem (List.mem_filter.mpr ⟨h, decide_eq_true rfl⟩)

theorem AllPositive.comparable {runs : List Record} (h : AllPositive runs) (r : Record) :
    AllPositive (comparable runs r) :=
  fun q hq => h q (List.mem_filter.mp hq).1

theorem filterMap_getElem? {α : Type} (items : List α) :
    (List.range items.length).filterMap (items[·]?) = items := by
  have inside : (items[·]?) ∘ (fun i : Fin items.length => i.val) = some ∘ items.get :=
    funext fun i => List.getElem?_eq_getElem i.isLt
  rw [← List.map_coe_finRange_eq_range, List.filterMap_map, inside, List.filterMap_eq_map,
    ← List.ofFn_eq_map, List.ofFn_get]

/-- Every run is measured against the greatest throughput among the runs of its
configuration, which one of them has, and all else stays as it is, whatever values the runs
carry. Annotating again changes nothing, and runs may change their places before or after. -/
theorem annotate_measures (runs : List Record) (h : AllPositive runs) :
    (annotate runs).length = runs.length ∧
    (∀ (place : Nat) (r : Record), runs[place]? = some r → ∃ best,
      (∃ q ∈ runs, Configuration.ofRecord q = Configuration.ofRecord r ∧ q.throughput = best) ∧
      (∀ q ∈ runs, Configuration.ofRecord q = Configuration.ofRecord r → q.throughput ≤ best) ∧
      0 < best ∧
      (annotate runs)[place]? = some { r with closeToMax := some (percent r.throughput best) }) ∧
    annotate (annotate runs) = annotate runs ∧
    ∀ order : List Nat, order.Perm (List.range runs.length) →
      annotate (order.filterMap (runs[·]?)) = order.filterMap ((annotate runs)[·]?) := by
  refine ⟨?_, ?_, annotate_congr (unmeasured_annotate runs), ?_⟩
  · rw [annotate_eq_map, List.length_map]
  · intro place r hr
    obtain ⟨⟨q, hq, hqt⟩, hbound⟩ :=
      peak_spec (h.comparable r) (comparable_ne_nil (List.mem_of_getElem? hr))
    obtain ⟨hmem, hkey⟩ := List.mem_filter.mp hq
    refine ⟨peak (comparable runs r), ⟨q, hmem, of_decide_eq_true hkey, hqt⟩, ?_,
      hqt ▸ (h q hmem).2, ?_⟩
    · intro p hp hsame
      have number := Decimal.isNaN_of_isFinite (h p hp).1
      have number' := hqt ▸ Decimal.isNaN_of_isFinite (h q hmem).1
      exact (Decimal.le_iff_rank number number').mpr
        (hbound p (List.mem_filter.mpr ⟨hp, decide_eq_true hsame⟩))
    · rw [annotate_eq_map, List.getElem?_map, hr]
      rfl
  · intro order horder
    have hperm : (order.filterMap (runs[·]?)).Perm runs := by
      have moved := horder.filterMap (runs[·]?)
      rwa [filterMap_getElem?] at moved
    have same : ∀ r, measured (order.filterMap (runs[·]?)) r = measured runs r := by
      intro r
      have group : (comparable runs r).Perm (comparable (order.filterMap (runs[·]?)) r) :=
        (hperm.filter _).symm
      rw [measured, measured, peak_perm (h.comparable r) group]
    simp only [annotate_eq_map, List.getElem?_map, List.map_filterMap]
    rw [funext same]

/-- Two runs of one configuration with a run of another between them, measured before they
came together. -/
def threeRuns : List Record :=
  let run (threads : Nat) (throughput : Float) : Record :=
    { kind := .tpcc
      variant := ⟨"treap".toList, none⟩
      threads := threads
      throughput := throughput
      summary := ∅
      details := .workload none ∅
      closeToMax := some 100 }
  [run 4 2, run 8 3, run 4 8]

theorem annotate_measures_threeRuns :
    AllPositive threeRuns ∧ (annotate threeRuns).length = 3 ∧
      (∃ best : Float, 0 < best ∧ (annotate threeRuns)[0]? =
        threeRuns[0]?.map fun r => { r with closeToMax := some (percent 2 best) }) ∧
      annotate (annotate threeRuns) = annotate threeRuns ∧
      [2, 0, 1].Perm (List.range threeRuns.length) ∧
      annotate ([2, 0, 1].filterMap (threeRuns[·]?)) =
        [2, 0, 1].filterMap ((annotate threeRuns)[·]?) ∧
      (annotate threeRuns).map Record.closeToMax = [some 25, some 100, some 100] := by
  have positive : AllPositive threeRuns := by
    intro r hr
    simp only [threeRuns, List.mem_cons, List.not_mem_nil, or_false] at hr
    rcases hr with rfl | rfl | rfl <;> exact ⟨by rfl, by decide⟩
  have order : [2, 0, 1].Perm (List.range threeRuns.length) := by decide
  obtain ⟨length, each, again, moved⟩ := annotate_measures threeRuns positive
  obtain ⟨best, -, -, above, first⟩ := each 0 _ rfl
  exact ⟨positive, length, ⟨best, above, first⟩, again, order, moved [2, 0, 1] order,
    by decide +kernel⟩

end Closeness
end RunLog
