import Mathlib
import RunLog.Decimal.Shortest
import RunLog.Proofs.Roundings

/-!
# The shortest decimal lies around its double

The search for the shortest decimal of a double works in whole numbers. Whatever
it finds lies in the interval of the double, and so does the exact value, which
stands behind a search that finds nothing. That nothing shorter lies there is
not treated.
-/
namespace RunLog.Decimal

variable {m : Magnitude} {k : ℤ}

def Short.value (s : Short) : ℚ :=
  s.digits * 10 ^ s.exponent

section Grid

theorem gridFactor_pos (m : Magnitude) (k : ℤ) : (0 : ℚ) < (gridFactor m k).2 := by
  simp only [gridFactor, Nat.pow_eq]
  positivity

theorem gridFactor_value (m : Magnitude) (k : ℤ) :
    ((gridFactor m k).1 : ℚ) = 2 ^ (m.exponent - 2) * (gridFactor m k).2 / 10 ^ k := by
  simp only [gridFactor, Nat.pow_eq]
  push_cast
  rw [zpow_toNat (by norm_num : (10 : ℚ) ≠ 0) k, zpow_toNat two_ne_zero (m.exponent - 2)]
  field_simp

theorem grid_iff (a d : ℕ) :
    (a * (gridFactor m k).1 ≤ d * (gridFactor m k).2 ↔
      (a : ℚ) * 2 ^ (m.exponent - 2) ≤ d * 10 ^ k) ∧
    (d * (gridFactor m k).2 ≤ a * (gridFactor m k).1 ↔
      (d : ℚ) * 10 ^ k ≤ a * 2 ^ (m.exponent - 2)) := by
  have ten : (0 : ℚ) < 10 ^ k := by positivity
  have pos := gridFactor_pos m k
  have scaled : ((a * (gridFactor m k).1 : ℕ) : ℚ) * 10 ^ k =
      a * 2 ^ (m.exponent - 2) * (gridFactor m k).2 := by
    rw [Nat.cast_mul, gridFactor_value]
    field_simp
  have point : ((d * (gridFactor m k).2 : ℕ) : ℚ) * 10 ^ k =
      d * 10 ^ k * (gridFactor m k).2 := by
    rw [Nat.cast_mul, mul_right_comm]
  constructor <;>
    rw [← mul_le_mul_iff_of_pos_right pos, ← scaled, ← point, mul_le_mul_iff_of_pos_right ten,
      Nat.cast_le]

/-- A grid point reads back as the double if it lies in its interval. -/
theorem readsBack_surrounds (pos : 0 < m.mantissa) {d : ℕ} (h : readsBack m k d = true) :
    m.Surrounds (d * 10 ^ k) := by
  have low : ((4 * m.mantissa - if m.narrowBelow then 1 else 2 : ℕ) : ℚ) *
      2 ^ (m.exponent - 2) = m.lower := by
    rw [Magnitude.lower]
    cases m.narrowBelow <;> simp only [Bool.false_eq_true, if_false, if_true] <;>
      rw [Nat.cast_sub (by omega)] <;> push_cast <;> rfl
  have high : ((4 * m.mantissa + 2 : ℕ) : ℚ) * 2 ^ (m.exponent - 2) = m.upper := by
    rw [Magnitude.upper]
    push_cast
    rfl
  simp only [readsBack] at h
  by_cases even : m.mantissa % 2 = 0
  · rw [if_pos even, Bool.and_eq_true, decide_eq_true_eq, decide_eq_true_eq,
      (grid_iff _ _).1, (grid_iff _ _).2, low, high] at h
    exact ⟨h.1, h.2, fun _ => even⟩
  · rw [if_neg even, Bool.and_eq_true, decide_eq_true_eq, decide_eq_true_eq, ← not_le, ← not_le,
      (grid_iff _ _).1, (grid_iff _ _).2, low, high, not_le, not_le] at h
    exact ⟨h.1.le, h.2.le, fun ends => ends.elim (absurd · h.1.ne') (absurd · h.2.ne)⟩

end Grid

section Search

variable {tie : Tie} {d : ℕ}

theorem onGrid?_readsBack (h : onGrid? tie m k = some d) : readsBack m k d = true := by
  simp only [onGrid?] at h
  split at h
  · rename_i below above
    split_ifs at h <;> cases h <;> assumption
  · cases h
    assumption
  · cases h
    assumption
  · cases h

theorem search_surrounds (pos : 0 < m.mantissa) {fuel : ℕ} {s : Short}
    (h : search tie m fuel k = some s) : m.Surrounds s.value := by
  induction fuel generalizing k with
  | zero => cases h
  | succ fuel ih =>
      rw [search] at h
      split at h
      · rename_i d found
        cases h
        exact readsBack_surrounds pos (onGrid?_readsBack found)
      · exact ih h

theorem exact_value (m : Magnitude) : (exact m).value = m.value := by
  rw [exact, Short.value, Magnitude.value]
  split_ifs with whole
  · obtain ⟨n, hn⟩ := Int.eq_ofNat_of_zero_le whole
    rw [hn, Int.toNat_natCast, zpow_natCast, Nat.pow_eq]
    push_cast
    simp
  · obtain ⟨n, hn⟩ : ∃ n : ℕ, m.exponent = -n := ⟨(-m.exponent).toNat, by omega⟩
    rw [hn, neg_neg, Int.toNat_natCast, zpow_neg, zpow_neg, zpow_natCast, zpow_natCast, Nat.pow_eq]
    push_cast
    rw [show (10 : ℚ) = 5 * 2 by norm_num, mul_pow]
    field_simp

/-- What is written for a double lies in its interval. -/
theorem shortest_surrounds (pos : 0 < m.mantissa) (tie : Tie) :
    m.Surrounds (shortest tie m).value := by
  rw [shortest]
  cases found : search tie m 20 (coarsest m) with
  | none => exact exact_value m ▸ m.surrounds_value
  | some s => exact search_surrounds pos found

end Search

end RunLog.Decimal
