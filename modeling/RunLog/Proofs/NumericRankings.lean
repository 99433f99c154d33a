import Mathlib
import RunLog.Proofs.Rankings
import RunLog.Run.Draft

/-!
# Rankings and the numeric order

A ranking goes by places in the total order. Among numbers that is the numeric order
but for the two zeros, which are numerically equal and have a place each. So a ranking
is in numeric order, and runs whose values are numerically equal keep their order unless
the values are zeros: of the zeros, the positive ones come first (`order_numeric`). The
best run is the earliest of those with the greatest value, and among zeros the earliest
of the positive ones (`head_foremost`).
-/
namespace RunLog

namespace Decimal

theorem beq_iff_rank {a b : Float} (ha : a.isNaN = false) (hb : b.isNaN = false) :
    (a == b) = true ↔ rank a = rank b := by
  change (_ == some Ordering.eq) = true ↔ _
  rw [compare_rank ha hb, beq_iff_eq, Option.some.injEq, compare_eq_iff_eq]

theorem rank_eq_zero_iff {x : Float} : rank x = 0 ↔ x = 0 ∨ x = -0 := by
  have zero : (0 : Float).toBits.toNat = 0 := by decide +kernel
  have minusZero : (-0 : Float).toBits.toNat = 2 ^ 63 := by decide +kernel
  have below : x.toBits.toNat < 2 ^ 64 := x.toBits.toNat_lt
  rw [← Float.toBits_inj, ← Float.toBits_inj, ← UInt64.toNat_inj, ← UInt64.toNat_inj, zero,
    minusZero]
  simp only [rank, isNegative, Nat.pow_eq, decide_eq_true_eq]
  split_ifs <;> omega

/-- Numbers that are numerically equal are equal, or they are the two zeros. -/
theorem eq_or_zeros {a b : Float} (ha : a.isNaN = false) (hb : b.isNaN = false)
    (h : (a == b) = true) : a = b ∨ (a = 0 ∧ b = -0) ∨ (a = -0 ∧ b = 0) := by
  have same := (beq_iff_rank ha hb).mp h
  by_cases zero : rank a = 0
  · rcases rank_eq_zero_iff.mp zero with rfl | rfl <;>
      rcases rank_eq_zero_iff.mp (same.symm.trans zero) with rfl | rfl <;> simp
  · exact .inl (eq_of_rank_eq zero same)

theorem minusZero_below : totalLE 0 (-0) = false := by decide +kernel

theorem beq_zero_iff {x : Float} (hx : x.isNaN = false) : (x == 0) = true ↔ x = 0 ∨ x = -0 := by
  rw [beq_iff_rank hx (by rfl), rank_zero, rank_eq_zero_iff]

end Decimal

namespace Ranking
variable {α : Type} {value? : α → Option Float} {items : List α}

/-- Whether two values are numerically equal; absent values are equal to each other only. -/
def tied : Option Float → Option Float → Bool
  | some x, some y => x == y
  | none, none => true
  | _, _ => false

/-- The second list holds the items of the first one in numeric order of their values. Items
that are tied, or have no value, stay in order, but for zeros: the positive ones come first. -/
structure InNumericOrder (value? : α → Option Float) (items ranked : List α) : Prop where
  perm : ranked.Perm items
  valuedFirst : ranked.Pairwise fun a b => value? a = none → value? b = none
  descending : ranked.Pairwise fun a b =>
    ∀ x y, value? a = some x → value? b = some y → y ≤ x
  stable : ∀ a ∈ items, tied (value? a) (some 0) = false →
    ranked.filter (fun b => tied (value? a) (value? b)) =
      items.filter fun b => tied (value? a) (value? b)
  zeros : ranked.filter (fun b => tied (value? b) (some 0)) =
    items.filter (value? · = some 0) ++ items.filter (value? · = some (-0))

/-- The item `top` is the earliest one with the greatest value, or the first one if none has a
value. Only a positive zero goes before a tied value that is earlier, a negative zero. -/
structure Foremost (value? : α → Option Float) (earlier : List α) (top : α) (later : List α) :
    Prop where
  valueless : value? top = none → earlier = [] ∧ ∀ a ∈ later, value? a = none
  greatest : ∀ x, value? top = some x →
    ∀ a ∈ earlier ++ later, ∀ y, value? a = some y → y ≤ x
  earliest : ∀ a ∈ earlier, tied (value? a) (value? top) = true →
    value? a = some (-0) ∧ value? top = some 0

/-- Of two sorts of items, of which no one of the second sort stands before one of the first,
the first sort comes first. -/
theorem filter_or_of_pairwise {first second : α → Bool} {ranked : List α}
    (apart : ranked.Pairwise fun a b => second a = true → first b = false)
    (differ : ∀ a ∈ ranked, first a = true → second a = false) :
    ranked.filter (fun a => first a || second a) =
      ranked.filter first ++ ranked.filter second := by
  induction ranked with
  | nil => rfl
  | cons a rest ih =>
      obtain ⟨behind, apart⟩ := List.pairwise_cons.mp apart
      obtain ⟨differs, differ⟩ := List.forall_mem_cons.mp differ
      have later := ih apart differ
      cases hf : first a with
      | true => simp [hf, differs hf, later]
      | false =>
          cases hs : second a with
          | false => simp [hf, hs, later]
          | true =>
              have none : rest.filter first = [] :=
                List.filter_eq_nil_iff.mpr fun b hb => by simp [behind b hb hs]
              rw [none, List.nil_append] at later
              simp [hf, hs, later, none]

variable (numbers : ∀ a ∈ items, ∀ x, value? a = some x → x.isNaN = false)
include numbers

theorem tied_cases {a b : α} (ha : a ∈ items) (hb : b ∈ items)
    (h : tied (value? a) (value? b) = true) :
    value? a = value? b ∨ (value? a = some 0 ∧ value? b = some (-0)) ∨
      (value? a = some (-0) ∧ value? b = some 0) := by
  cases hva : value? a with
  | none =>
      cases hvb : value? b with
      | none => exact .inl rfl
      | some y => simp [hva, hvb, tied] at h
  | some x =>
      cases hvb : value? b with
      | none => simp [hva, hvb, tied] at h
      | some y =>
          rw [hva, hvb] at h
          simpa using Decimal.eq_or_zeros (numbers a ha x hva) (numbers b hb y hvb) h

theorem tied_self {a : α} (ha : a ∈ items) : tied (value? a) (value? a) = true := by
  cases hva : value? a with
  | none => rfl
  | some x =>
      have number := numbers a ha x hva
      exact (Decimal.beq_iff_rank number number).mpr rfl

/-- An item that is no zero is tied only with items of its own value. -/
theorem tied_eq {a b : α} (ha : a ∈ items) (hb : b ∈ items)
    (nonzero : tied (value? a) (some 0) = false) :
    tied (value? a) (value? b) = decide (value? b = value? a) := by
  rw [Bool.eq_iff_iff, decide_eq_true_eq]
  refine ⟨fun h => ?_, fun same => by rw [same]; exact tied_self numbers ha⟩
  rcases tied_cases numbers ha hb h with same | ⟨zero, -⟩ | ⟨zero, -⟩
  · exact same.symm
  · cases (zero ▸ nonzero : tied (some 0) (some 0) = false)
  · cases (zero ▸ nonzero : tied (some (-0)) (some 0) = false)

theorem tied_zero {a : α} (ha : a ∈ items) :
    tied (value? a) (some 0) = (decide (value? a = some 0) || decide (value? a = some (-0))) := by
  cases hva : value? a with
  | none => rfl
  | some x =>
      rw [Bool.eq_iff_iff, Bool.or_eq_true, decide_eq_true_eq, decide_eq_true_eq,
        Option.some.injEq, Option.some.injEq]
      exact Decimal.beq_zero_iff (numbers a ha x hva)

/-- Ranking puts items that have numbers as values in numeric order. -/
theorem order_numeric : InNumericOrder value? items (order value? items) := by
  have ranked : Ranked value? items (order value? items) := order_ranked items
  have inside : ∀ a ∈ order value? items, a ∈ items := fun a ha => ranked.perm.mem_iff.mp ha
  refine ⟨ranked.perm, ranked.valuedFirst, ?_, fun a ha nonzero => ?_, ?_⟩
  · refine ranked.descending.imp_of_mem fun {a b} ha hb h x y hx hy => ?_
    exact Decimal.le_of_totalLE (numbers b (inside b hb) y hy) (numbers a (inside a ha) x hx)
      (h x y hx hy)
  · rw [List.filter_congr fun b hb => tied_eq numbers ha (inside b hb) nonzero,
      List.filter_congr fun b hb => tied_eq numbers ha hb nonzero]
    exact ranked.stable (value? a)
  · have apart : (order value? items).Pairwise fun a b =>
        decide (value? a = some (-0)) = true → decide (value? b = some 0) = false := by
      refine ranked.descending.imp fun {a b} h ha => decide_eq_false fun hb => ?_
      have below := h (-0) 0 (of_decide_eq_true ha) hb
      cases Decimal.minusZero_below.symm.trans below
    have differ : ∀ a ∈ order value? items,
        decide (value? a = some 0) = true → decide (value? a = some (-0)) = false := by
      intro a _ ha
      have different : (0 : Float) ≠ -0 := by decide +kernel
      rw [of_decide_eq_true ha]
      exact decide_eq_false fun same => different (Option.some.inj same)
    rw [List.filter_congr fun b hb => tied_zero numbers (inside b hb),
      filter_or_of_pairwise apart differ, ranked.stable, ranked.stable]

theorem head_foremost {top : α} (h : (order value? items).head? = some top) :
    ∃ earlier later, items = earlier ++ top :: later ∧ Foremost value? earlier top later := by
  have ranked : Ranked value? items (order value? items) := order_ranked items
  have numeric := order_numeric numbers
  obtain ⟨rest, hrest⟩ := List.head?_eq_some_iff.mp h
  rw [hrest] at ranked numeric
  have stable := ranked.stable (value? top)
  rw [List.filter_cons_of_pos (by simp)] at stable
  obtain ⟨earlier, later, hitems, before, -, -⟩ := List.filter_eq_cons_iff.mp stable.symm
  have different : ∀ a ∈ earlier, value? a ≠ value? top := fun a ha same =>
    before a ha (decide_eq_true same)
  have inside : ∀ a ∈ earlier ++ later, a ∈ items := by
    intro a ha
    rw [hitems, List.mem_append, List.mem_cons]
    exact (List.mem_append.mp ha).imp_right .inr
  have behind : ∀ a ∈ items, value? a ≠ value? top → a ∈ rest := by
    intro a ha hne
    refine (List.mem_cons.mp (ranked.perm.mem_iff.mpr ha)).resolve_left ?_
    rintro rfl
    exact hne rfl
  refine ⟨earlier, later, hitems, ?_, ?_, ?_⟩
  · intro unvalued
    have valueless : ∀ a ∈ items, value? a = none := by
      intro a ha
      by_contra valued
      have hne : value? a ≠ value? top := fun same => valued (same.trans unvalued)
      exact valued ((List.pairwise_cons.mp ranked.valuedFirst).1 a (behind a ha hne) unvalued)
    refine ⟨List.eq_nil_iff_forall_not_mem.mpr fun a ha => ?_, fun a ha => ?_⟩
    · have unvalued' := valueless a (inside a (List.mem_append_left _ ha))
      exact different a ha (unvalued'.trans unvalued.symm)
    · exact valueless a (inside a (List.mem_append_right _ ha))
  · intro x hx a ha y hy
    by_cases same : value? a = value? top
    · obtain rfl : y = x := Option.some.inj (hy.symm.trans (same.trans hx))
      have number := numbers a (inside a ha) y hy
      exact Decimal.le_of_totalLE number number (Decimal.totalLE_refl y)
    · exact (List.pairwise_cons.mp numeric.descending).1 a (behind a (inside a ha) same) x y hx hy
  · intro a ha same
    have later := behind a (inside a (List.mem_append_left _ ha)) (different a ha)
    have htop : top ∈ items := ranked.perm.mem_iff.mp List.mem_cons_self
    rcases tied_cases numbers (inside a (List.mem_append_left _ ha)) htop same with
      equal | ⟨zero, minusZero⟩ | zeros
    · exact absurd equal (different a ha)
    · have below := (List.pairwise_cons.mp ranked.descending).1 a later _ _ minusZero zero
      cases Decimal.minusZero_below.symm.trans below
    · exact zeros

end Ranking

/-- Values are numbers: of a component only a finite throughput counts. -/
theorem Criterion.value?_number {criterion : Criterion} {r : Record} {x : Float}
    (number : r.throughput.isNaN = false) (h : criterion.value? r = some x) :
    x.isNaN = false := by
  cases criterion with
  | throughput => exact Option.some.inj h ▸ number
  | component name =>
      exact Decimal.isNaN_of_isFinite (Option.filter_eq_some_iff.mp h).2

namespace Ranking

/-- As long as throughputs are numbers, a ranking is in numeric order, whatever runs are ranked
by, and runs that are tied keep their order unless they are tied at zero. There is a best run
if there is any run, and it is the foremost one. -/
theorem ranks_numerically (criterion : Criterion) (runs : List Record)
    (numbers : ∀ r ∈ runs, r.throughput.isNaN = false) :
    InNumericOrder criterion.value? runs (rank criterion runs) ∧
      (best criterion runs = none ↔ runs = []) ∧
      ∀ r, best criterion runs = some r → ∃ earlier later,
        runs = earlier ++ r :: later ∧ Foremost criterion.value? earlier r later := by
  have values : ∀ r ∈ runs, ∀ x, criterion.value? r = some x → x.isNaN = false :=
    fun r hr x hx => Criterion.value?_number (numbers r hr) hx
  refine ⟨order_numeric values, ⟨fun none => ?_, fun empty => ?_⟩, fun r hr => ?_⟩
  · by_contra some
    obtain ⟨r, hr⟩ := exists_best criterion some
    cases none.symm.trans hr
  · exact List.head?_eq_none_iff.mpr (List.perm_nil.mp (empty ▸ order_perm runs))
  · exact head_foremost values hr

/-- A draft that states all that is asked of a workload run, with the throughput of one
component. -/
def mainDraft (rate : Float) : Draft :=
  { Draft.empty with
    kind := some .ycsb
    variant := some ⟨"treap".toList, none⟩
    threads := some 2
    throughput := some 1.5
    components := Dictionary.insert ∅ "MAIN".toList
      (Dictionary.insert ∅ "throughput".toList (.number rate)) }

def mainRun (rate : Float) : Record :=
  { kind := .ycsb
    variant := ⟨"treap".toList, none⟩
    threads := 2
    throughput := 1.5
    summary := Dictionary.insert ∅ "throughput".toList (.number 1.5)
    details := .workload none (mainDraft rate).components
    closeToMax := none }

theorem complete_mainDraft (rate : Float) : (mainDraft rate).complete = .ok (mainRun rate) := rfl

theorem mainRun_value {rate : Float} (h : rate.isFinite = true) :
    (Criterion.component "MAIN".toList).value? (mainRun rate) = some rate := by
  have stated : (mainRun rate).componentThroughput? "MAIN".toList = some rate := rfl
  rw [Criterion.value?, stated, Option.filter_some, if_pos h]

theorem mainRun_number (rate : Float) : (mainRun rate).throughput.isNaN = false :=
  Decimal.isNaN_of_isFinite (show (1.5 : Float).isFinite = true by rfl)

/-- A run at zero is passed by a later one whose value is numerically equal. -/
theorem zeros_change_places :
    let main := Criterion.component "MAIN".toList
    let first := mainRun (-0)
    let second := mainRun 0
    (mainDraft (-0)).complete = .ok first ∧ (mainDraft 0).complete = .ok second ∧
      first ≠ second ∧ tied (main.value? first) (main.value? second) = true ∧
      rank main [first, second] = [second, first] ∧ best main [first, second] = some second := by
  intro main first second
  have hfirst : main.value? first = some (-0) := mainRun_value (by rfl)
  have hsecond : main.value? second = some 0 := mainRun_value (by rfl)
  have different : (-0 : Float) ≠ 0 := by decide +kernel
  have numeric : InNumericOrder main.value? [first, second] (rank main [first, second]) :=
    order_numeric fun r hr x hx => Criterion.value?_number
      (by rcases List.mem_pair.mp hr with rfl | rfl <;> exact mainRun_number _) hx
  have all : (rank main [first, second]).filter (fun r => tied (main.value? r) (some 0)) =
      rank main [first, second] := by
    refine List.filter_eq_self.mpr fun r hr => ?_
    rcases List.mem_pair.mp (numeric.perm.mem_iff.mp hr) with rfl | rfl
    · rw [hfirst]
      rfl
    · rw [hsecond]
      rfl
  have order : rank main [first, second] = [second, first] := by
    rw [← all, numeric.zeros]
    simp [hfirst, hsecond, different, different.symm]
  refine ⟨complete_mainDraft _, complete_mainDraft _, fun same => ?_, ?_, order, ?_⟩
  · exact different (Option.some.inj (hfirst.symm.trans (same ▸ hsecond)))
  · rw [hfirst, hsecond]
    rfl
  · rw [best, order]
    rfl

theorem ranks_numerically_zeros :
    let main := Criterion.component "MAIN".toList
    let runs := [mainRun (-0), mainRun 2, mainRun 0]
    (∀ r ∈ runs, r.throughput.isNaN = false) ∧
      InNumericOrder main.value? runs (rank main runs) ∧
      (rank main runs).filter (fun r => tied (main.value? r) (some 0)) =
        [mainRun 0, mainRun (-0)] ∧
      ∃ r earlier later, best main runs = some r ∧ runs = earlier ++ r :: later ∧
        Foremost main.value? earlier r later := by
  intro main runs
  have numbers : ∀ r ∈ runs, r.throughput.isNaN = false := by
    simp only [runs, List.forall_mem_cons]
    exact ⟨mainRun_number _, mainRun_number _, mainRun_number _, List.forall_mem_nil _⟩
  obtain ⟨numeric, -, foremost⟩ := ranks_numerically main runs numbers
  obtain ⟨r, hr⟩ := exists_best main (List.cons_ne_nil (mainRun (-0)) [mainRun 2, mainRun 0])
  obtain ⟨earlier, later, cut, first⟩ := foremost r hr
  refine ⟨numbers, numeric, ?_, r, earlier, later, hr, cut, first⟩
  have hminus : main.value? (mainRun (-0)) = some (-0) := mainRun_value (by rfl)
  have htwo : main.value? (mainRun 2) = some 2 := mainRun_value (by rfl)
  have hzero : main.value? (mainRun 0) = some 0 := mainRun_value (by rfl)
  have different : (-0 : Float) ≠ 0 := by decide +kernel
  have two : (2 : Float) ≠ 0 ∧ (2 : Float) ≠ -0 := by decide +kernel
  rw [numeric.zeros]
  simp [runs, hminus, htwo, hzero, different, different.symm, two]

end Ranking

end RunLog
