import Mathlib
import RunLog.Spread

/-!
# Laws of the five numbers

A quartile lies between the values at two places, of which the second is the same as the
first or the next one (`lower`, `upper`). From three values on, the places of one quartile
end where those of the next one begin, or before; of two values all quartiles lie between
the same two. That is all the order of the five numbers depends on (`ascending`).

Over exact numbers the five numbers depend on the sorted values only, and sorting commutes
with maps that keep the order and, backwards, with those that reverse it. So the laws of the
five numbers are laws of one quartile of a sorted list (`quartile_affine`, `quartile_mirror`).
-/
namespace RunLog.FiveNumbers

/-- The place of the last value that is not behind the quartile `k` of `n` values. -/
def lower (n k : ℕ) : ℕ :=
  k * (n - 1) / 4

/-- The place of the first value that is not before the quartile `k` of `n` values. -/
def upper (n k : ℕ) : ℕ :=
  (k * (n - 1) + 3) / 4

section Places

variable {n k : ℕ}

theorem lower_le_upper (n k : ℕ) : lower n k ≤ upper n k := by
  unfold lower upper
  omega

theorem upper_lt (some : 0 < n) (hk : k ≤ 4) : upper n k < n := by
  have atMost : k * (n - 1) ≤ 4 * (n - 1) := Nat.mul_le_mul_right _ hk
  unfold upper
  omega

theorem lower_eq_upper (whole : k * (n - 1) % 4 = 0) : lower n k = upper n k := by
  unfold lower upper
  omega

/-- The places of one quartile end where those of the next one begin, unless there are just
two values. -/
theorem upper_le_lower_succ (notTwo : n ≠ 2) : upper n k ≤ lower n (k + 1) := by
  unfold lower upper
  rw [Nat.succ_mul]
  rcases (by omega : n - 1 = 0 ∨ n - 1 = 2 ∨ 3 ≤ n - 1) with none | two | more
  · rw [none]
    omega
  · rw [two]
    omega
  · generalize k * (n - 1) = position
    omega

/-- The places seen from the other end. -/
theorem lower_mirror (some : 0 < n) (hk : k ≤ 4) :
    lower n (4 - k) = n - 1 - upper n k ∧ upper n (4 - k) = n - 1 - lower n k ∧
      ((4 - k) * (n - 1) + k * (n - 1)) % 4 = 0 := by
  have both : (4 - k) * (n - 1) + k * (n - 1) = 4 * (n - 1) := by
    rw [← Nat.add_mul, Nat.sub_add_cancel hk]
  unfold lower upper
  omega

end Places

/-- Quartiles that lie between the values around them are in ascending order, and so are both
ends, if that holds of two values with all three quartiles between them. -/
theorem ascending (value quartile : ℕ → ℚ) {n : ℕ} (some : 0 < n)
    (sorted : ∀ i j, i ≤ j → j < n → value i ≤ value j)
    (within : ∀ k, 0 < k → k ≤ 3 →
      value (lower n k) ≤ quartile k ∧ quartile k ≤ value (upper n k))
    (pair : n = 2 → quartile 1 ≤ quartile 2 ∧ quartile 2 ≤ quartile 3) :
    value 0 ≤ quartile 1 ∧ quartile 1 ≤ quartile 2 ∧ quartile 2 ≤ quartile 3 ∧
      quartile 3 ≤ value (n - 1) := by
  have inside {k : ℕ} (hk : k ≤ 3) : upper n k < n := upper_lt some (by omega)
  have next {k : ℕ} (pos : 0 < k) (hk : k + 1 ≤ 3) (notTwo : n ≠ 2) :
      quartile k ≤ quartile (k + 1) :=
    calc quartile k ≤ value (upper n k) := (within k pos (by omega)).2
      _ ≤ value (lower n (k + 1)) := sorted _ _ (upper_le_lower_succ notTwo)
          ((lower_le_upper n (k + 1)).trans_lt (inside hk))
      _ ≤ quartile (k + 1) := (within (k + 1) (by omega) hk).1
  refine ⟨?_, ?_, ?_, ?_⟩
  · exact (sorted _ _ (Nat.zero_le _) ((lower_le_upper n 1).trans_lt (inside (by omega)))).trans
      (within 1 (by omega) (by omega)).1
  · by_cases two : n = 2
    · exact (pair two).1
    · exact next (by omega) (by omega) two
  · by_cases two : n = 2
    · exact (pair two).2
    · exact next (by omega) (by omega) two
  · have last := inside (k := 3) (by omega)
    exact (within 3 (by omega) (by omega)).2.trans (sorted _ _ (by omega) (by omega))

section Order

variable {α : Type} {r : α → α → Prop} {sorted : List α}

theorem getD_le_getD (refl : ∀ x, r x x) (inOrder : sorted.Pairwise r) (default : α) {i j : ℕ}
    (le : i ≤ j) (inside : j < sorted.length) :
    r (sorted.getD i default) (sorted.getD j default) := by
  rw [List.getD_eq_getElem _ _ inside, List.getD_eq_getElem _ _ (le.trans_lt inside)]
  rcases le.eq_or_lt with rfl | lt
  · exact refl _
  · exact List.pairwise_iff_getElem.mp inOrder i j _ inside lt

theorem getD_mem {default : α} {i : ℕ} (inside : i < sorted.length) :
    sorted.getD i default ∈ sorted := by
  rw [List.getD_eq_getElem _ _ inside]
  exact List.getElem_mem inside

theorem getD_bounds (refl : ∀ x, r x x) (inOrder : sorted.Pairwise r) (default : α) {x : α}
    (hx : x ∈ sorted) :
    r (sorted.getD 0 default) x ∧ r x (sorted.getD (sorted.length - 1) default) := by
  obtain ⟨i, hi, rfl⟩ := List.mem_iff_getElem.mp hx
  rw [← List.getD_eq_getElem _ default hi]
  exact ⟨getD_le_getD refl inOrder default (Nat.zero_le _) hi,
    getD_le_getD refl inOrder default (by omega) (by omega)⟩

end Order

/-- The five numbers of values that are in order already. -/
def ofSorted {α : Type} [Inhabited α] [Add α] [Sub α] [Mul α] (quarters : ℕ → α)
    (sorted : List α) : FiveNumbers α :=
  { min := sorted.getD 0 default
    q1 := quartile quarters sorted 1
    median := quartile quarters sorted 2
    q3 := quartile quarters sorted 3
    max := sorted.getD (sorted.length - 1) default
    count := sorted.length }

theorem ofList?_eq_some {α : Type} [Inhabited α] [Add α] [Sub α] [Mul α] {le : α → α → Bool}
    {quarters : ℕ → α} {values : List α} (nonempty : values ≠ []) :
    ofList? le quarters values = some (ofSorted quarters (values.mergeSort le)) := by
  have some : values.mergeSort le ≠ [] := fun none =>
    nonempty (List.perm_nil.mp (none ▸ (List.mergeSort_perm values le).symm))
  unfold ofList?
  split
  · rename_i none
    exact absurd none some
  · rename_i first rest cut
    rw [cut, ofSorted]
    simp [List.getLast_eq_getElem]

theorem ofList?_nil {α : Type} [Inhabited α] [Add α] [Sub α] [Mul α] {le : α → α → Bool}
    {quarters : ℕ → α} : ofList? le quarters [] = none := by
  rw [ofList?, List.mergeSort_nil]

section Rationals

def fourths (n : ℕ) : ℚ :=
  n / 4

/-- The five numbers of exact values. -/
def ofRationals? (values : List ℚ) : Option (FiveNumbers ℚ) :=
  ofList? (fun a b => decide (a ≤ b)) fourths values

/-- The value at a position between the places of a list, on the straight line between the values
at the places around it. -/
def interpolated (sorted : List ℚ) (position : ℚ) : ℚ :=
  let low := sorted.getD ⌊position⌋₊ 0
  let high := sorted.getD ⌈position⌉₊ 0
  low + (high - low) * (position - ⌊position⌋₊)

/-- Five numbers of which each is changed in the same way. -/
def map {α β : Type} (f : α → β) (five : FiveNumbers α) : FiveNumbers β :=
  ⟨f five.min, f five.q1, f five.median, f five.q3, f five.max, five.count⟩

/-- Five numbers seen from the other end. -/
def mirror {α : Type} (five : FiveNumbers α) : FiveNumbers α :=
  ⟨five.max, five.q3, five.median, five.q1, five.min, five.count⟩

variable {values sorted : List ℚ} {k : ℕ}

theorem quartile_fourths (sorted : List ℚ) (k : ℕ) :
    quartile fourths sorted k = sorted.getD (lower sorted.length k) 0 +
      (sorted.getD (upper sorted.length k) 0 - sorted.getD (lower sorted.length k) 0) *
        ((k * (sorted.length - 1) % 4 : ℕ) / 4) := rfl

theorem floor_quarters (p : ℕ) : ⌊(p : ℚ) / 4⌋₊ = p / 4 :=
  Nat.floor_div_eq_div p 4

theorem ceil_quarters (p : ℕ) : ⌈(p : ℚ) / 4⌉₊ = (p + 3) / 4 := by
  refine le_antisymm (Nat.ceil_le.mpr ?_) ?_
  · rw [div_le_iff₀ (by norm_num)]
    exact_mod_cast (by omega : p ≤ (p + 3) / 4 * 4)
  · have above := Nat.le_ceil ((p : ℚ) / 4)
    rw [div_le_iff₀ (by norm_num)] at above
    have above : p ≤ ⌈(p : ℚ) / 4⌉₊ * 4 := by exact_mod_cast above
    omega

section Positions

variable {n : ℕ}

theorem position_eq (some : 0 < n) (k : ℕ) :
    (k / 4 * (n - 1) : ℚ) = (k * (n - 1) : ℕ) / 4 := by
  push_cast [Nat.succ_le_of_lt some]
  ring

theorem floor_position (some : 0 < n) (k : ℕ) : ⌊(k / 4 * (n - 1) : ℚ)⌋₊ = lower n k := by
  rw [position_eq some, floor_quarters, lower]

theorem ceil_position (some : 0 < n) (k : ℕ) : ⌈(k / 4 * (n - 1) : ℚ)⌉₊ = upper n k := by
  rw [position_eq some, ceil_quarters, upper]

end Positions

theorem quartile_interpolated (nonempty : sorted ≠ []) (k : ℕ) :
    quartile fourths sorted k = interpolated sorted (k / 4 * (sorted.length - 1)) := by
  have some : 0 < sorted.length := List.length_pos_iff.mpr nonempty
  have part (p : ℕ) : ((p % 4 : ℕ) / 4 : ℚ) = p / 4 - (p / 4 : ℕ) := by
    have whole : (4 : ℚ) * (p / 4 : ℕ) + (p % 4 : ℕ) = p := by exact_mod_cast Nat.div_add_mod p 4
    linarith
  rw [quartile_fourths, part, interpolated, floor_position some, ceil_position some,
    position_eq some]
  rfl

theorem sorted_of_perm {others : List ℚ} (inOrder : others.Pairwise (· ≤ ·))
    (perm : others.Perm values) : values.mergeSort (fun a b => decide (a ≤ b)) = others :=
  ((List.mergeSort_perm values _).trans perm.symm).eq_of_pairwise'
    (List.pairwise_mergeSort' (· ≤ ·) values) inOrder

theorem between_mem {a b : ℚ} (le : a ≤ b) {part : ℕ} (hpart : part ≤ 4) :
    a ≤ a + (b - a) * (part / 4) ∧ a + (b - a) * (part / 4) ≤ b := by
  have low : (0 : ℚ) ≤ part / 4 := by positivity
  have high : (part : ℚ) / 4 ≤ 1 := by
    rw [div_le_one (by norm_num)]
    exact_mod_cast hpart
  constructor <;> nlinarith

theorem ofSorted_ascending (nonempty : sorted ≠ []) (inOrder : sorted.Pairwise (· ≤ ·)) :
    sorted.getD 0 0 ≤ quartile fourths sorted 1 ∧
      quartile fourths sorted 1 ≤ quartile fourths sorted 2 ∧
      quartile fourths sorted 2 ≤ quartile fourths sorted 3 ∧
      quartile fourths sorted 3 ≤ sorted.getD (sorted.length - 1) 0 := by
  have some : 0 < sorted.length := List.length_pos_iff.mpr nonempty
  have monotone : ∀ i j, i ≤ j → j < sorted.length → sorted.getD i 0 ≤ sorted.getD j 0 :=
    fun _ _ => getD_le_getD le_refl inOrder 0
  refine ascending (sorted.getD · 0) (quartile fourths sorted) some monotone
    (fun k _ hk => ?_) fun two => ?_
  · exact between_mem (monotone _ _ (lower_le_upper _ k) (upper_lt some (by omega)))
      (Nat.mod_lt _ (by norm_num)).le
  · obtain ⟨a, b, rfl⟩ := List.length_eq_two.mp two
    have ends : a ≤ b := by simpa using inOrder
    have quartile (k : ℕ) (hk : 0 < k ∧ k < 4) :
        quartile fourths [a, b] k = a + (b - a) * (k / 4) := by
      have low : lower 2 k = 0 := by unfold lower; omega
      have high : upper 2 k = 1 := by unfold upper; omega
      simp [quartile_fourths, low, high, Nat.mod_eq_of_lt hk.2]
    rw [quartile 1 (by decide), quartile 2 (by decide), quartile 3 (by decide)]
    norm_num
    constructor <;> linarith

theorem getD_map_of_lt {α β : Type} {f : α → β} {xs : List α} {i : ℕ} (h : i < xs.length)
    (x : α) (y : β) : (xs.map f).getD i y = f (xs.getD i x) := by
  rw [List.getD_eq_getElem _ _ (by simpa using h), List.getD_eq_getElem _ _ h, List.getElem_map]

theorem quartile_affine (nonempty : sorted ≠ []) (hk : k ≤ 4) (a b : ℚ) :
    quartile fourths (sorted.map fun x => a * x + b) k = a * quartile fourths sorted k + b := by
  have high := upper_lt (List.length_pos_iff.mpr nonempty) hk
  have low := (lower_le_upper _ k).trans_lt high
  rw [quartile_fourths, quartile_fourths, List.length_map, getD_map_of_lt low 0 0,
    getD_map_of_lt high 0 0]
  ring

/-- Where the values stand in the opposite order, with the opposite signs, the quartiles are
exchanged. -/
theorem quartile_mirror (nonempty : sorted ≠ []) (hk : k ≤ 4) :
    quartile fourths (sorted.map (-·)).reverse (4 - k) = -quartile fourths sorted k := by
  have some := List.length_pos_iff.mpr nonempty
  have high := upper_lt some hk
  have low := (lower_le_upper _ k).trans_lt high
  obtain ⟨lowest, highest, parts⟩ := lower_mirror some hk
  have value {i : ℕ} (hi : i < sorted.length) :
      (sorted.map (-·)).reverse.getD (sorted.length - 1 - i) 0 = -sorted.getD i 0 := by
    have there : sorted.length - 1 - i < (sorted.map (-·)).length := by
      rw [List.length_map]
      omega
    rw [List.getD_reverse _ there, List.length_map, Nat.sub_sub_self (by omega),
      getD_map_of_lt hi 0]
  rw [quartile_fourths, quartile_fourths, List.length_reverse, List.length_map, lowest, highest,
    value high, value low]
  by_cases whole : k * (sorted.length - 1) % 4 = 0
  · rw [lower_eq_upper whole]
    ring
  · have part : (((4 - k) * (sorted.length - 1) % 4 : ℕ) : ℚ) =
        4 - (k * (sorted.length - 1) % 4 : ℕ) := by
      rw [eq_sub_iff_add_eq]
      exact_mod_cast (by omega :
        (4 - k) * (sorted.length - 1) % 4 + k * (sorted.length - 1) % 4 = 4)
    rw [part]
    ring

def inOrder (values : List ℚ) : List ℚ :=
  values.mergeSort fun a b => decide (a ≤ b)

theorem ofRationals?_eq_some (nonempty : values ≠ []) :
    ofRationals? values = some (ofSorted fourths (inOrder values)) :=
  ofList?_eq_some nonempty

theorem inOrder_affine {a : ℚ} (ha : 0 ≤ a) (b : ℚ) (values : List ℚ) :
    inOrder (values.map fun x => a * x + b) = (inOrder values).map fun x => a * x + b := by
  refine sorted_of_perm ?_ ((List.mergeSort_perm values _).map _)
  refine List.pairwise_map.mpr ((List.pairwise_mergeSort' (· ≤ ·) values).imp fun le => ?_)
  gcongr

theorem inOrder_neg (values : List ℚ) :
    inOrder (values.map (-·)) = ((inOrder values).map (-·)).reverse := by
  refine sorted_of_perm ?_ ((List.reverse_perm _).trans ((List.mergeSort_perm values _).map _))
  rw [List.pairwise_reverse, List.pairwise_map]
  exact (List.pairwise_mergeSort' (· ≤ ·) values).imp neg_le_neg

theorem ofSorted_affine (nonempty : sorted ≠ []) (a b : ℚ) :
    ofSorted fourths (sorted.map fun x => a * x + b) =
      (ofSorted fourths sorted).map fun x => a * x + b := by
  have some := List.length_pos_iff.mpr nonempty
  have quartile {k : ℕ} (hk : k ≤ 4) := quartile_affine nonempty hk a b
  rw [ofSorted, ofSorted, map, List.length_map]
  congr 1
  · exact getD_map_of_lt some _ _
  · exact quartile (by omega)
  · exact quartile (by omega)
  · exact quartile (by omega)
  · exact getD_map_of_lt (by omega) _ _

theorem ofSorted_neg (nonempty : sorted ≠ []) :
    ofSorted fourths (sorted.map (-·)).reverse =
      ((ofSorted fourths sorted).mirror).map (-·) := by
  have some := List.length_pos_iff.mpr nonempty
  have mirrored {k : ℕ} (hk : k ≤ 4) := quartile_mirror nonempty hk
  rw [ofSorted, ofSorted, map, mirror, List.length_reverse, List.length_map]
  congr 1
  · rw [List.getD_reverse _ (by simpa using some), List.length_map]
    exact getD_map_of_lt (by omega) _ _
  · exact mirrored (k := 3) (by omega)
  · exact mirrored (k := 2) (by omega)
  · exact mirrored (k := 1) (by omega)
  · rw [List.getD_reverse _ (by simp; omega), List.length_map, Nat.sub_self]
    exact getD_map_of_lt some _ _

/-- The five numbers of exact values are the interpolated ones. Their positions lie among the
values; the numbers are in order, and the outer two are the least and the greatest value. They
do not depend on the order of the values, follow every affine map that does not reverse the
order, and are exchanged when all signs change. -/
theorem exact_laws (values : List ℚ) (nonempty : values ≠ []) :
    let sorted := inOrder values
    let last : ℚ := values.length - 1
    (∀ p : ℚ, p = 1 / 4 ∨ p = 1 / 2 ∨ p = 3 / 4 →
      ⌊p * last⌋₊ < sorted.length ∧ ⌈p * last⌉₊ < sorted.length) ∧
    ∃ five, ofRationals? values = some five ∧ five.count = values.length ∧
      (five.min ∈ values ∧ ∀ x ∈ values, five.min ≤ x) ∧
      (five.max ∈ values ∧ ∀ x ∈ values, x ≤ five.max) ∧
      five.q1 = interpolated sorted (1 / 4 * last) ∧
      five.median = interpolated sorted (1 / 2 * last) ∧
      five.q3 = interpolated sorted (3 / 4 * last) ∧
      (five.min ≤ five.q1 ∧ five.q1 ≤ five.median ∧ five.median ≤ five.q3 ∧
        five.q3 ≤ five.max) ∧
      (∀ others : List ℚ, others.Perm values → ofRationals? others = some five) ∧
      (∀ a b : ℚ, 0 ≤ a → ofRationals? (values.map fun x => a * x + b) =
        some (five.map fun x => a * x + b)) ∧
      ofRationals? (values.map (-·)) = some (five.mirror.map (-·)) := by
  intro sorted last
  have inOrder : sorted.Pairwise (· ≤ ·) := List.pairwise_mergeSort' (· ≤ ·) values
  have perm : sorted.Perm values := List.mergeSort_perm values _
  have length : sorted.length = values.length := perm.length_eq
  have some : 0 < sorted.length := length ▸ List.length_pos_iff.mpr nonempty
  have nonempty' : sorted ≠ [] := List.length_pos_iff.mp some
  have bounds {x : ℚ} (hx : x ∈ values) := getD_bounds le_refl inOrder 0 (perm.mem_iff.mpr hx)
  have places {k : ℕ} {p : ℚ} (hp : p = k / 4) (hk : k ≤ 4) :
      ⌊p * last⌋₊ < sorted.length ∧ ⌈p * last⌉₊ < sorted.length := by
    have high := upper_lt some hk
    rw [hp, floor_position (length ▸ some), ceil_position (length ▸ some), ← length]
    exact ⟨(lower_le_upper _ k).trans_lt high, high⟩
  have interpolation {k : ℕ} {p : ℚ} (hp : p = k / 4) :
      quartile fourths sorted k = interpolated sorted (p * last) := by
    rw [quartile_interpolated nonempty', hp, length]
  have first : (1 / 4 : ℚ) = (1 : ℕ) / 4 := by norm_num
  have second : (1 / 2 : ℚ) = (2 : ℕ) / 4 := by norm_num
  have third : (3 / 4 : ℚ) = (3 : ℕ) / 4 := by norm_num
  refine ⟨?_, ofSorted fourths sorted, ofRationals?_eq_some nonempty, length,
    ⟨perm.mem_iff.mp (getD_mem some), fun x hx => (bounds hx).1⟩,
    ⟨perm.mem_iff.mp (getD_mem (by omega)), fun x hx => (bounds hx).2⟩,
    interpolation first, interpolation second, interpolation third,
    ofSorted_ascending nonempty' inOrder, ?_, ?_, ?_⟩
  · rintro p (rfl | rfl | rfl)
    · exact places first (by omega)
    · exact places second (by omega)
    · exact places third (by omega)
  · intro others hperm
    have same : FiveNumbers.inOrder others = sorted :=
      sorted_of_perm inOrder (perm.trans hperm.symm)
    rw [ofRationals?_eq_some (fun none => nonempty (none ▸ hperm).nil_eq.symm), same]
  · intro a b ha
    rw [ofRationals?_eq_some (by simpa using nonempty), inOrder_affine ha,
      ofSorted_affine nonempty']
  · rw [ofRationals?_eq_some (by simpa using nonempty), inOrder_neg, ofSorted_neg nonempty']

theorem exact_laws_fourValues :
    [5, 1, 3, 2] ≠ ([] : List ℚ) ∧
      ofRationals? [5, 1, 3, 2] = some ⟨1, 7 / 4, 5 / 2, 7 / 2, 5, 4⟩ ∧
      ofRationals? [1, 2, 3, 5] = some ⟨1, 7 / 4, 5 / 2, 7 / 2, 5, 4⟩ ∧
      ofRationals? [11, 3, 7, 5] = some ⟨3, 9 / 2, 6, 8, 11, 4⟩ ∧
      ofRationals? [-5, -1, -3, -2] = some ⟨-5, -(7 / 2), -(5 / 2), -(7 / 4), -1, 4⟩ := by
  have nonempty : [5, 1, 3, 2] ≠ ([] : List ℚ) := by decide
  have sorted : inOrder [5, 1, 3, 2] = [1, 2, 3, 5] := sorted_of_perm (by norm_num) (by decide)
  have known : ofRationals? [5, 1, 3, 2] = some ⟨1, 7 / 4, 5 / 2, 7 / 2, 5, 4⟩ := by
    rw [ofRationals?_eq_some nonempty, sorted, ofSorted]
    norm_num [quartile_fourths, lower, upper]
  obtain ⟨-, five, found, -, -, -, -, -, -, -, permuted, moved, negated⟩ :=
    exact_laws [5, 1, 3, 2] nonempty
  obtain rfl : five = ⟨1, 7 / 4, 5 / 2, 7 / 2, 5, 4⟩ := Option.some.inj (found.symm.trans known)
  have moved := moved 2 1 (by norm_num)
  norm_num [map] at moved
  norm_num [map, mirror] at negated
  exact ⟨nonempty, known, permuted _ (by decide), moved, negated⟩

end Rationals

end RunLog.FiveNumbers
