import Mathlib
import RunLog.Proofs.FloatOrder
import RunLog.Proofs.Groupings
import RunLog.Ranking

/-!
# What a ranking keeps

Doubles are ranked by their places in the total order, and every double has a
place of its own. A ranking puts items in order and moves no two items of one
value past each other; `Ranked` says this of a list and the ranked one without a
word about how it was sorted. The best run is the first of a ranking, so no run
of its group has a larger throughput.
-/
namespace RunLog

namespace Decimal

theorem totalLE_refl (a : Float) : totalLE a a = true :=
  decide_eq_true (Nat.le_refl _)

theorem totalLE_trans {a b c : Float} (hab : totalLE a b = true) (hbc : totalLE b c = true) :
    totalLE a c = true :=
  decide_eq_true (Nat.le_trans (of_decide_eq_true hab) (of_decide_eq_true hbc))

theorem totalLE_total (a b : Float) : totalLE a b = true ∨ totalLE b a = true :=
  (Nat.le_total (place a) (place b)).imp decide_eq_true decide_eq_true

theorem place_injective : Function.Injective place := by
  intro a b h
  have below : a.toBits.toNat < 2 ^ 64 := a.toBits.toNat_lt
  have below' : b.toBits.toNat < 2 ^ 64 := b.toBits.toNat_lt
  rw [← Float.toBits_inj, ← UInt64.toNat_inj]
  simp only [place, Nat.pow_eq] at h
  split_ifs at h <;> omega

theorem totalLE_antisymm {a b : Float} (hab : totalLE a b = true) (hba : totalLE b a = true) :
    a = b :=
  place_injective (Nat.le_antisymm (of_decide_eq_true hab) (of_decide_eq_true hba))

/-- Among numbers the total order refines the numeric one. -/
theorem le_of_totalLE {a b : Float} (ha : a.isNaN = false) (hb : b.isNaN = false)
    (h : totalLE a b = true) : a ≤ b := by
  have below : a.toBits.toNat < 2 ^ 64 := a.toBits.toNat_lt
  have below' : b.toBits.toNat < 2 ^ 64 := b.toBits.toNat_lt
  have hplace : place a ≤ place b := of_decide_eq_true h
  rw [le_iff_rank ha hb]
  simp only [place, rank, isNegative, Nat.pow_eq, decide_eq_true_eq] at hplace ⊢
  split_ifs at hplace ⊢ <;> omega

end Decimal

namespace Ranking
variable {α : Type} {value? : α → Option Float}

theorem before_refl (a : Option Float) : before a a = true := by
  cases a with
  | none => rfl
  | some x => exact Decimal.totalLE_refl x

theorem before_total (a b : Option Float) : (before a b || before b a) = true := by
  rw [Bool.or_eq_true]
  cases a with
  | none =>
      cases b with
      | none => exact .inl rfl
      | some y => exact .inr rfl
  | some x =>
      cases b with
      | none => exact .inl rfl
      | some y => exact (Decimal.totalLE_total x y).symm

theorem before_trans {a b c : Option Float} (hab : before a b = true) (hbc : before b c = true) :
    before a c = true := by
  cases a with
  | none =>
      cases b with
      | none => exact hbc
      | some y => cases hab
  | some x =>
      cases c with
      | none => rfl
      | some z =>
          cases b with
          | none => cases hbc
          | some y => exact Decimal.totalLE_trans hbc hab

def itemBefore (value? : α → Option Float) (a b : α) : Bool :=
  before (value? a) (value? b)

theorem itemBefore_total (value? : α → Option Float) (a b : α) :
    (itemBefore value? a b || itemBefore value? b a) = true :=
  before_total _ _

theorem itemBefore_trans (value? : α → Option Float) (a b c : α)
    (hab : itemBefore value? a b = true) (hbc : itemBefore value? b c = true) :
    itemBefore value? a c = true :=
  before_trans hab hbc

/-- The second list holds the items of the first one in order of their values: items without a
value come last, larger values come first, and items of one value, or of none, stay in order. -/
structure Ranked (value? : α → Option Float) (items ranked : List α) : Prop where
  perm : ranked.Perm items
  valuedFirst : ranked.Pairwise fun a b => value? a = none → value? b = none
  descending : ranked.Pairwise fun a b =>
    ∀ x y, value? a = some x → value? b = some y → Decimal.totalLE y x = true
  stable : ∀ value, ranked.filter (value? · = value) = items.filter (value? · = value)

theorem order_eq (items : List α) :
    order value? items = items.mergeSort (itemBefore value?) := by
  have valued : (items.map fun item => (value? item, item)).map Prod.snd = items := by
    rw [List.map_map, Function.comp_def, List.map_id']
  rw [order, List.map_mergeSort (s := itemBefore value?), valued]
  rintro ⟨x, a⟩ ha ⟨y, b⟩ hb
  obtain ⟨a, -, heq⟩ := List.mem_map.mp ha
  obtain ⟨b, -, heq'⟩ := List.mem_map.mp hb
  cases heq
  cases heq'
  rfl

theorem order_pairwise (items : List α) :
    (order value? items).Pairwise fun a b => itemBefore value? a b = true := by
  rw [order_eq]
  exact List.pairwise_mergeSort (itemBefore_trans value?) (itemBefore_total value?) items

theorem order_perm (items : List α) : (order value? items).Perm items := by
  rw [order_eq]
  exact List.mergeSort_perm _ _

theorem order_filter (items : List α) (value : Option Float) :
    (order value? items).filter (value? · = value) = items.filter (value? · = value) := by
  have same : (items.filter (value? · = value)).Pairwise
      fun a b => itemBefore value? a b = true := by
    refine List.pairwise_of_forall_mem_list fun a ha b hb => ?_
    have hva : value? a = value := of_decide_eq_true (List.mem_filter.mp ha).2
    have hvb : value? b = value := of_decide_eq_true (List.mem_filter.mp hb).2
    rw [itemBefore, hva, hvb]
    exact before_refl value
  have kept : (items.filter (value? · = value)).Sublist (order value? items) := by
    rw [order_eq]
    exact List.sublist_mergeSort (itemBefore_trans value?) (itemBefore_total value?) same
      List.filter_sublist
  have inside : (items.filter (value? · = value)).Sublist
      ((order value? items).filter (value? · = value)) := by
    have filtered := kept.filter (value? · = value)
    rwa [List.filter_filter, List.filter_congr fun a _ => Bool.and_self _] at filtered
  exact (inside.eq_of_length ((order_perm items).filter _).length_eq.symm).symm

/-- Ranking puts items in order, and keeps what has one value in its order. -/
theorem order_ranked (items : List α) : Ranked value? items (order value? items) where
  perm := order_perm items
  valuedFirst := by
    refine (order_pairwise items).imp fun {a b} h ha => ?_
    rw [itemBefore, ha] at h
    cases hb : value? b with
    | none => rfl
    | some y =>
        rw [hb] at h
        cases h
  descending := by
    refine (order_pairwise items).imp fun {a b} h x y hx hy => ?_
    rw [itemBefore, hx, hy] at h
    exact h
  stable := order_filter items

end Ranking

def Decimal.Greatest (values : List Float) (x : Float) : Prop :=
  x ∈ values ∧ ∀ y ∈ values, totalLE y x = true

theorem Decimal.Greatest.unique {values : List Float} {x y : Float} (hx : Greatest values x)
    (hy : Greatest values y) : x = y :=
  totalLE_antisymm (hy.2 x hx.1) (hx.2 y hy.1)

theorem Decimal.Greatest.perm {values others : List Float} {x : Float} (h : values.Perm others)
    (hx : Greatest values x) : Greatest others x :=
  ⟨h.mem_iff.mp hx.1, fun y hy => hx.2 y (h.mem_iff.mpr hy)⟩

namespace Ranking

theorem Ranked.head_greatest {runs ranked : List Record} {r : Record}
    (h : Ranked Criterion.throughput.value? runs ranked) (hr : ranked.head? = some r) :
    Decimal.Greatest (runs.map Record.throughput) r.throughput := by
  obtain ⟨rest, rfl⟩ := List.head?_eq_some_iff.mp hr
  refine ⟨List.mem_map_of_mem (h.perm.mem_iff.mp List.mem_cons_self), fun y hy => ?_⟩
  obtain ⟨q, hq, rfl⟩ := List.mem_map.mp hy
  rcases List.mem_cons.mp (h.perm.mem_iff.mpr hq) with rfl | hlater
  · exact Decimal.totalLE_refl _
  · exact (List.pairwise_cons.mp h.descending).1 q hlater _ _ rfl rfl

theorem best_greatest {runs : List Record} {r : Record}
    (h : best .throughput runs = some r) :
    Decimal.Greatest (runs.map Record.throughput) r.throughput :=
  (order_ranked runs).head_greatest h

theorem exists_best (criterion : Criterion) {runs : List Record} (h : runs ≠ []) :
    ∃ r, best criterion runs = some r := by
  have perm : (rank criterion runs).Perm runs := order_perm runs
  have ranked : rank criterion runs ≠ [] := fun hnil => h (List.perm_nil.mp (hnil ▸ perm.symm))
  exact ⟨_, List.head?_eq_some_head ranked⟩

end Ranking

namespace Series

theorem mem_bestPoints {runs : List Record} {threads : Nat} {x : Float} :
    (threads, x) ∈ bestPoints runs ↔
      Decimal.Greatest ((runs.filter (·.threads = threads)).map Record.throughput) x := by
  simp only [bestPoints, List.mem_filterMap, Option.map_eq_some_iff, Prod.exists, Prod.mk.injEq]
  constructor
  · rintro ⟨t, members, hmem, r, hr, rfl, rfl⟩
    obtain ⟨-, rfl⟩ := Groups.mem_sorted.mp hmem
    exact Ranking.best_greatest hr
  · intro h
    obtain ⟨q, hq, -⟩ := List.mem_map.mp h.1
    obtain ⟨hmem, hthreads⟩ := List.mem_filter.mp hq
    obtain ⟨r, hr⟩ := Ranking.exists_best .throughput (List.ne_nil_of_mem hq)
    exact ⟨threads, _, Groups.mem_sorted.mpr ⟨⟨q, hmem, of_decide_eq_true hthreads⟩, rfl⟩, r, hr,
      rfl, (Ranking.best_greatest hr).unique h⟩

theorem bestPoints_ascending (runs : List Record) :
    ((bestPoints runs).map Prod.fst).Pairwise (· < ·) := by
  rw [List.pairwise_map, bestPoints]
  refine List.Pairwise.filterMap _ ?_ (Groups.sorted_ascending Record.threads runs)
  rintro ⟨t, group⟩ ⟨u, other⟩ hlt a ha b hb
  obtain ⟨r, -, rfl⟩ := Option.map_eq_some_iff.mp ha
  obtain ⟨q, -, rfl⟩ := Option.map_eq_some_iff.mp hb
  exact Nat.compare_eq_lt.mp hlt

theorem bestPoints_perm {runs others : List Record} (h : runs.Perm others) :
    bestPoints runs = bestPoints others := by
  have same : ∀ point, point ∈ bestPoints runs ↔ point ∈ bestPoints others := by
    rintro ⟨threads, x⟩
    rw [mem_bestPoints, mem_bestPoints]
    exact ⟨.perm ((h.filter _).map _), .perm ((h.symm.filter _).map _)⟩
  have distinct : ∀ runs, (bestPoints runs).Nodup := fun runs =>
    List.Nodup.of_map Prod.fst ((bestPoints_ascending runs).imp Nat.ne_of_lt)
  have perm := (List.perm_ext_iff_of_nodup (distinct runs) (distinct others)).mpr same
  have ascending : ∀ runs, (bestPoints runs).Pairwise fun a b => a.1 < b.1 :=
    fun runs => List.pairwise_map.mp (bestPoints_ascending runs)
  exact perm.eq_of_pairwise
    (fun a b _ _ hab hba => absurd (Nat.lt_trans hab hba) (Nat.lt_irrefl _))
    (ascending runs) (ascending others)

end Series

end RunLog
