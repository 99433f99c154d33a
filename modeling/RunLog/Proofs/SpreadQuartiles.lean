import Mathlib
import RunLog.Proofs.Interpolations
import RunLog.Proofs.Rankings

/-!
# The five numbers of a spread

A spread has five numbers unless none of its values is a number. The least and the greatest one
are values. A quartile lies between the two sorted values around it exactly if these can be
interpolated (`FiveNumbers.Spanned`): the first one is finite, and a finite second one is not so
far away that their difference is rounded to infinity. If all three quartiles are interpolated
in this way, the five numbers are in order.

Values do not always allow that. The difference of two values may be too large, though both are
finite; and between two infinite values there is no number to compute.
-/
namespace RunLog
open Decimal FiveNumbers

def FiveNumbers.toList {α : Type} (five : FiveNumbers α) : List α :=
  [five.min, five.q1, five.median, five.q3, five.max]

structure FiveNumbers.Ordered (five : FiveNumbers Float) : Prop where
  numbers : ∀ x ∈ five.toList, x.isNaN = false
  min_le_q1 : five.min ≤ five.q1
  q1_le_median : five.q1 ≤ five.median
  median_le_q3 : five.median ≤ five.q3
  q3_le_max : five.q3 ≤ five.max

namespace Spread

variable {s : Spread} {k : ℕ} {x : Float}

def numbers (s : Spread) : List Float :=
  s.values.filter fun x => !x.isNaN

def sorted (s : Spread) : List Float :=
  s.numbers.mergeSort totalLE

/-- The last of the sorted numbers that is not behind the quartile `k`. -/
def below (s : Spread) (k : ℕ) : Float :=
  s.sorted.getD (lower s.sorted.length k) default

/-- The first of the sorted numbers that is not before the quartile `k`. -/
def above (s : Spread) (k : ℕ) : Float :=
  s.sorted.getD (upper s.sorted.length k) default

theorem sorted_perm (s : Spread) : s.sorted.Perm s.numbers :=
  List.mergeSort_perm _ _

theorem isNaN_of_numbers (h : x ∈ s.numbers) : x.isNaN = false := by
  simpa using (List.mem_filter.mp h).2

theorem isNaN_of_sorted (h : x ∈ s.sorted) : x.isNaN = false :=
  isNaN_of_numbers (s.sorted_perm.mem_iff.mp h)

theorem sorted_total (s : Spread) : s.sorted.Pairwise fun a b => totalLE a b = true := by
  have trans (a b c : Float) : totalLE a b = true → totalLE b c = true → totalLE a c = true :=
    totalLE_trans
  have total (a b : Float) : (totalLE a b || totalLE b a) = true :=
    Bool.or_eq_true_iff.mpr (totalLE_total a b)
  exact List.pairwise_mergeSort trans total s.numbers

/-- Doubles are sorted in one way only. -/
theorem sorted_eq {others : List Float} (inOrder : others.Pairwise fun a b => totalLE a b = true)
    (perm : s.numbers.Perm others) : s.sorted = others :=
  (s.sorted_perm.trans perm).eq_of_pairwise (fun _ _ _ _ => totalLE_antisymm) s.sorted_total inOrder

theorem sorted_pairwise (s : Spread) : s.sorted.Pairwise fun a b => worth a ≤ worth b := by
  refine s.sorted_total.imp_of_mem fun ha hb le => ?_
  have number := isNaN_of_sorted ha
  have number' := isNaN_of_sorted hb
  exact (le_iff_worth number number').mp (le_of_totalLE number number' le)

theorem sorted_length (s : Spread) : s.sorted.length = s.numbers.length :=
  s.sorted_perm.length_eq

theorem fiveNumbers?_eq_some (nonempty : s.numbers ≠ []) :
    s.fiveNumbers? = some (ofSorted quarter s.sorted) :=
  ofList?_eq_some nonempty

theorem fiveNumbers?_eq_none (empty : s.numbers = []) : s.fiveNumbers? = none :=
  (congrArg (ofList? totalLE quarter) empty).trans ofList?_nil

theorem fiveNumbers?_eq_none_iff : s.fiveNumbers? = none ↔ ∀ x ∈ s.values, x.isNaN = true := by
  have none_iff : s.fiveNumbers? = none ↔ s.numbers = [] := by
    refine ⟨fun none => ?_, fiveNumbers?_eq_none⟩
    by_contra nonempty
    rw [fiveNumbers?_eq_some nonempty] at none
    cases none
  rw [none_iff, numbers, List.filter_eq_nil_iff]
  simp

theorem sorted_pos (nonempty : s.numbers ≠ []) : 0 < s.sorted.length :=
  s.sorted_length ▸ List.length_pos_iff.mpr nonempty

theorem worth_getD_le {i j : ℕ} (le : i ≤ j) (inside : j < s.sorted.length) :
    worth (s.sorted.getD i default) ≤ worth (s.sorted.getD j default) :=
  getD_le_getD (r := fun a b => worth a ≤ worth b) (fun _ => le_rfl) s.sorted_pairwise default le
    inside

theorem gap (nonempty : s.numbers ≠ []) (hk : k ≤ 4) :
    Gap (s.below k) (s.above k) (k * (s.sorted.length - 1) % 4) := by
  have some := sorted_pos nonempty
  have inside := upper_lt some hk
  have ordered := lower_le_upper s.sorted.length k
  exact
    { low := isNaN_of_sorted (getD_mem (ordered.trans_lt inside))
      high := isNaN_of_sorted (getD_mem inside)
      le := worth_getD_le ordered inside
      quarters := Nat.mod_lt _ (by norm_num)
      whole := fun whole => congrArg (s.sorted.getD · default) (lower_eq_upper whole) }

theorem quartile_eq (s : Spread) (k : ℕ) :
    quartile quarter s.sorted k =
      between quarter (s.below k) (s.above k) (k * (s.sorted.length - 1) % 4) := rfl

/-- Of two numbers, all three quartiles lie in the same gap. -/
theorem quartile_le_of_two (nonempty : s.numbers ≠ []) (two : s.sorted.length = 2)
    (spanned : Spanned (s.below 1) (s.above 1)) {k l : ℕ} (pos : 0 < k) (le : k ≤ l) (hl : l < 4) :
    worth (quartile quarter s.sorted k) ≤ worth (quartile quarter s.sorted l) := by
  have same {k : ℕ} (pos : 0 < k) (hk : k < 4) :
      Gap (s.below 1) (s.above 1) k ∧
        quartile quarter s.sorted k = between quarter (s.below 1) (s.above 1) k := by
    have places : lower 2 k = lower 2 1 ∧ upper 2 k = upper 2 1 := by
      unfold lower upper
      omega
    have low : s.below k = s.below 1 := by rw [below, below, two, places.1]
    have high : s.above k = s.above 1 := by rw [above, above, two, places.2]
    have part : k * (s.sorted.length - 1) % 4 = k := by
      rw [two]
      omega
    have law := gap nonempty (by omega : k ≤ 4)
    rw [low, high, part] at law
    exact ⟨law, by rw [quartile_eq, low, high, part]⟩
  obtain ⟨law, value⟩ := same pos (by omega)
  obtain ⟨law', value'⟩ := same (by omega : 0 < l) hl
  rw [value, value']
  exact law.mono law' spanned le

theorem ordered_of_spanned (nonempty : s.numbers ≠ [])
    (spanned : ∀ k ∈ [1, 2, 3], Spanned (s.below k) (s.above k)) :
    (ofSorted quarter s.sorted).Ordered := by
  have some := sorted_pos nonempty
  have spanned {k : ℕ} (pos : 0 < k) (hk : k ≤ 3) : Spanned (s.below k) (s.above k) :=
    spanned k (by simp; omega)
  have bounds {k : ℕ} (pos : 0 < k) (hk : k ≤ 3) :=
    (gap nonempty (by omega : k ≤ 4)).bounds (spanned pos hk)
  simp only [← quartile_eq] at bounds
  obtain ⟨first, second, third, last⟩ := ascending (fun i => worth (s.sorted.getD i default))
    (fun k => worth (quartile quarter s.sorted k)) some (fun _ _ => worth_getD_le)
    (fun k pos hk => (bounds pos hk).2) fun two =>
      have first := spanned (k := 1) (by omega) (by omega)
      ⟨quartile_le_of_two nonempty two first (by omega) (by omega) (by omega),
        quartile_le_of_two nonempty two first (by omega) (by omega) (by omega)⟩
  have least : (s.sorted.getD 0 default).isNaN = false := isNaN_of_sorted (getD_mem some)
  have greatest : (s.sorted.getD (s.sorted.length - 1) default).isNaN = false :=
    isNaN_of_sorted (getD_mem (by omega))
  have number {k : ℕ} (pos : 0 < k) (hk : k ≤ 3) : (quartile quarter s.sorted k).isNaN = false :=
    (bounds pos hk).1
  have q1 := number (k := 1) (by omega) (by omega)
  have median := number (k := 2) (by omega) (by omega)
  have q3 := number (k := 3) (by omega) (by omega)
  refine ⟨?_, (le_iff_worth least q1).mpr first, (le_iff_worth q1 median).mpr second,
    (le_iff_worth median q3).mpr third, (le_iff_worth q3 greatest).mpr last⟩
  simp only [toList, List.forall_mem_cons]
  exact ⟨least, q1, median, q3, greatest, by simp⟩

/-- Whether a spread has five numbers, and what they are. -/
theorem five_numbers_between (s : Spread) :
    (s.fiveNumbers? = none ↔ ∀ x ∈ s.values, x.isNaN = true) ∧
      ∀ five, s.fiveNumbers? = some five →
        five.count = s.numbers.length ∧ five.min ∈ s.numbers ∧ five.max ∈ s.numbers ∧
        (∀ x ∈ s.numbers, five.min ≤ x ∧ x ≤ five.max) ∧
        (∀ k q, (k, q) ∈ [(1, five.q1), (2, five.median), (3, five.q3)] →
          (q.isNaN = true ↔ (s.below k).isInf = true) ∧
          (s.below k ≤ q ∧ q ≤ s.above k ↔ Spanned (s.below k) (s.above k))) ∧
        ((∀ k ∈ [1, 2, 3], Spanned (s.below k) (s.above k)) → five.Ordered) := by
  refine ⟨fiveNumbers?_eq_none_iff, fun five found => ?_⟩
  have nonempty : s.numbers ≠ [] := by
    intro empty
    have none := fiveNumbers?_eq_none empty
    rw [none] at found
    cases found
  obtain rfl : ofSorted quarter s.sorted = five :=
    Option.some.inj ((fiveNumbers?_eq_some nonempty).symm.trans found)
  have some := sorted_pos nonempty
  have member {i : ℕ} (inside : i < s.sorted.length) : s.sorted.getD i default ∈ s.numbers :=
    s.sorted_perm.mem_iff.mp (getD_mem inside)
  have least := member some
  have greatest := member (i := s.sorted.length - 1) (by omega)
  have law {k : ℕ} (hk : k ≤ 4) := gap nonempty hk
  refine ⟨s.sorted_length, least, greatest, fun x hx => ?_, ?_, ordered_of_spanned nonempty⟩
  · obtain ⟨low, high⟩ := getD_bounds (r := fun a b => worth a ≤ worth b) (fun _ => le_rfl)
      s.sorted_pairwise default (s.sorted_perm.mem_iff.mpr hx)
    have number := isNaN_of_numbers hx
    exact ⟨(le_iff_worth (isNaN_of_numbers least) number).mpr low,
      (le_iff_worth number (isNaN_of_numbers greatest)).mpr high⟩
  · have computed {k : ℕ} (hk : k ≤ 4) :
        ((quartile quarter s.sorted k).isNaN = true ↔ (s.below k).isInf = true) ∧
          (s.below k ≤ quartile quarter s.sorted k ∧ quartile quarter s.sorted k ≤ s.above k ↔
            Spanned (s.below k) (s.above k)) :=
      ⟨(law hk).isNaN_iff, (law hk).between_iff⟩
    simp only [List.mem_cons, List.not_mem_nil, or_false, Prod.mk.injEq]
    rintro k q (⟨rfl, rfl⟩ | ⟨rfl, rfl⟩ | ⟨rfl, rfl⟩)
    · exact computed (by omega)
    · exact computed (by omega)
    · exact computed (by omega)

/-- Six numbers and a value that is none. The outermost numbers are infinite. -/
def outerInfinite : Spread :=
  ⟨['x'], [0.5, infinity, -2.5, 0 / 0, 1e308, -infinity, 5e-324]⟩

theorem five_numbers_between_outerInfinite :
    ∃ five, outerInfinite.fiveNumbers? = some five ∧ five.count = 6 ∧
      (∀ k ∈ [1, 2, 3], Spanned (outerInfinite.below k) (outerInfinite.above k)) ∧
      five.Ordered := by
  have sorted : outerInfinite.sorted = [-infinity, -2.5, 5e-324, 0.5, 1e308, infinity] :=
    sorted_eq (by decide +kernel) (by decide +kernel)
  have nonempty : outerInfinite.numbers ≠ [] := by decide +kernel
  have spanned : ∀ k ∈ [1, 2, 3], Spanned (outerInfinite.below k) (outerInfinite.above k) := by
    intro k hk
    have hk' : k ≤ 4 := by
      simp at hk
      omega
    refine (spanned_iff (gap nonempty hk').le).mpr ?_
    rw [below, above, sorted]
    revert k
    decide +kernel
  have found := fiveNumbers?_eq_some nonempty
  obtain ⟨count, -, -, -, -, ordered⟩ := (five_numbers_between outerInfinite).2 _ found
  exact ⟨_, found, count.trans (by decide +kernel), spanned, ordered spanned⟩

def farApart : Spread :=
  ⟨['x'], [-1.5e308, 1.5e308]⟩

def infiniteAlone : Spread :=
  ⟨['x'], [infinity]⟩

/-- The quartiles of values that are too far apart are infinite, and those of an infinite value
are no numbers. So five numbers are not always in order. -/
theorem farApart_disordered :
    farApart.fiveNumbers?.map toList =
        some [-1.5e308, infinity, infinity, infinity, 1.5e308] ∧
      infiniteAlone.fiveNumbers?.map toList = some [infinity, 0 / 0, 0 / 0, 0 / 0, infinity] ∧
      ¬∀ s : Spread, (∃ x ∈ s.values, x.isNaN = false) →
        ∃ five, s.fiveNumbers? = some five ∧ five.Ordered := by
  have far : farApart.fiveNumbers? = some (ofSorted quarter [-1.5e308, 1.5e308]) := by
    have sorted : farApart.sorted = [-1.5e308, 1.5e308] :=
      sorted_eq (by decide +kernel) (by decide +kernel)
    rw [fiveNumbers?_eq_some (by decide +kernel), sorted]
  have alone : infiniteAlone.fiveNumbers? = some (ofSorted quarter [infinity]) := by
    have sorted : infiniteAlone.sorted = [infinity] :=
      sorted_eq (by decide +kernel) (by decide +kernel)
    rw [fiveNumbers?_eq_some (by decide +kernel), sorted]
  refine ⟨?_, ?_, fun all => ?_⟩
  · rw [far]
    decide +kernel
  · rw [alone]
    decide +kernel
  · obtain ⟨five, found, ordered⟩ := all farApart ⟨1.5e308, by simp [farApart], by decide +kernel⟩
    obtain rfl := Option.some.inj (far.symm.trans found)
    exact absurd ordered.q3_le_max (by decide +kernel)

end Spread
end RunLog
