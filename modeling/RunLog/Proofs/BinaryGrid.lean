import Mathlib
import RunLog.Proofs.NearestDoubles

/-!
# The grid of binary numbers

Doubles without a greatest one: the numbers that 53 bits spell in units of the least double or
larger ones, of either sign. A number is rounded to one of the grid that is nearest to it
(`GridNearest`). So a number of the grid that lies on one side of it does not lie on the other
side of what it is rounded to (`le_of_le`, `le_of_ge`), and a larger number is not rounded to a
smaller one (`mono`).

How far the grid goes in doubles is a question of its own. Here it only matters which numbers
are rounded beyond the greatest double (`beyond_iff`).
-/
namespace RunLog.Decimal

/-- A number of 53 bits, in units of the least double or larger ones. -/
def OnGrid (u : ℚ) : Prop :=
  ∃ k e : ℤ, |k| < 2 ^ 53 ∧ -1074 ≤ e ∧ u = k * 2 ^ e

/-- The number of the grid that a number is rounded to: one that is nearest to it. Halfway
between the greatest double and the next number of the grid, it is the latter. -/
structure GridNearest (v w : ℚ) : Prop where
  onGrid : OnGrid w
  nearest : ∀ u, OnGrid u → |v - w| ≤ |v - u|
  beyond : 2 ^ (1024 : ℤ) - 2 ^ (970 : ℤ) ≤ |v| → 2 ^ (1024 : ℤ) ≤ |w|

theorem OnGrid.neg {u : ℚ} (h : OnGrid u) : OnGrid (-u) := by
  obtain ⟨k, e, short, least, rfl⟩ := h
  exact ⟨-k, e, by rwa [abs_neg], least, by push_cast; ring⟩

theorem OnGrid.zero : OnGrid 0 :=
  ⟨0, 0, by norm_num, by norm_num, by norm_num⟩

theorem steps_eq (k : ℤ) {T e : ℤ} (le : T ≤ e) :
    (k : ℚ) * 2 ^ e = (k * 2 ^ (e - T).toNat : ℤ) * 2 ^ T := by
  push_cast
  rw [← zpow_natCast, Int.toNat_of_nonneg (by omega), mul_assoc, ← zpow_add₀ two_ne_zero,
    sub_add_cancel]

/-- A difference of numbers of the grid is on the grid if it is small enough. -/
theorem OnGrid.sub {u w : ℚ} (hu : OnGrid u) (hw : OnGrid w)
    (small : |u - w| < 2 ^ 53 * 2 ^ (-1074 : ℤ)) : OnGrid (u - w) := by
  obtain ⟨k, e, -, least, rfl⟩ := hu
  obtain ⟨l, f, -, least', rfl⟩ := hw
  have unit : (0 : ℚ) < 2 ^ (-1074 : ℤ) := by positivity
  rw [steps_eq k least, steps_eq l least', ← sub_mul, ← Int.cast_sub] at small ⊢
  generalize k * 2 ^ (e - -1074).toNat - l * 2 ^ (f - -1074).toNat = j at *
  rw [abs_mul, abs_of_pos unit] at small
  have short := lt_of_mul_lt_mul_right small unit.le
  exact ⟨j, -1074, by exact_mod_cast short, le_rfl, rfl⟩

theorem top_eq : (2 : ℚ) ^ (1024 : ℤ) = 2 ^ 53 * 2 ^ (971 : ℤ) := by
  rw [← zpow_natCast, ← zpow_add₀ two_ne_zero]
  rfl

theorem top_eq_next : (2 : ℚ) ^ (1024 : ℤ) = (2 ^ 52 : ℕ) * 2 ^ (972 : ℤ) := by
  rw [Nat.cast_pow, Nat.cast_ofNat, ← zpow_natCast, ← zpow_add₀ two_ne_zero]
  rfl

theorem le_top {m : ℕ} {e : ℤ} (short : m ≤ 2 ^ 53) (le : e ≤ 971) :
    (m : ℚ) * 2 ^ e ≤ 2 ^ (1024 : ℤ) := by
  rw [top_eq]
  exact mul_le_mul (by exact_mod_cast short) (zpow_le_zpow_right₀ one_le_two le) (by positivity)
    (by positivity)

theorem top_le {m : ℕ} {e : ℤ} (wide : 2 ^ 52 ≤ m) (le : 972 ≤ e) :
    (2 : ℚ) ^ (1024 : ℤ) ≤ m * 2 ^ e := by
  rw [top_eq_next]
  exact mul_le_mul (by exact_mod_cast wide) (zpow_le_zpow_right₀ one_le_two le) (by positivity)
    (Nat.cast_nonneg m)

theorem brink_pos : (0 : ℚ) < 2 ^ (1024 : ℤ) - 2 ^ (970 : ℤ) :=
  sub_pos.mpr (zpow_lt_zpow_right₀ one_lt_two (by norm_num))

theorem unit_greatest : (2 : ℚ) ^ (971 : ℤ) = 2 * 2 ^ (970 : ℤ) := by
  rw [← zpow_one_add₀ two_ne_zero]
  rfl

theorem onGrid_greatest : OnGrid (2 ^ (1024 : ℤ) - 2 ^ (971 : ℤ)) :=
  ⟨2 ^ 53 - 1, 971, by norm_num, by norm_num, by rw [top_eq, Int.cast_sub, sub_mul]; norm_num⟩

namespace GridNearest

variable {v w v' w' u : ℚ}

theorem neg (h : GridNearest v w) : GridNearest (-v) (-w) := by
  refine ⟨h.onGrid.neg, fun u hu => ?_, fun large => ?_⟩
  · have near := h.nearest (-u) hu.neg
    rwa [← abs_neg, ← abs_neg (v - -u), neg_sub', neg_sub', neg_neg] at near
  · rw [abs_neg] at large ⊢
    exact h.beyond large

theorem le_of_le (h : GridNearest v w) (hu : OnGrid u) (le : v ≤ u) : w ≤ u := by
  by_contra above
  have near := h.nearest u hu
  rw [abs_of_nonpos (by linarith), abs_of_nonpos (by linarith)] at near
  linarith

theorem le_of_ge (h : GridNearest v w) (hu : OnGrid u) (ge : u ≤ v) : u ≤ w := by
  have mirrored := h.neg.le_of_le hu.neg (neg_le_neg ge)
  linarith

theorem mono (h : GridNearest v w) (h' : GridNearest v' w') (lt : v < v') : w ≤ w' := by
  by_contra above
  have near := h.nearest w' h'.onGrid
  have near' := h'.nearest w h.onGrid
  rcases le_or_gt v w' with below | beyond
  · exact above (h.le_of_le h'.onGrid below)
  · rcases le_or_gt w v' with below' | beyond'
    · exact above (h'.le_of_ge h.onGrid below')
    · rw [abs_of_neg (by linarith), abs_of_pos (by linarith)] at near
      rw [abs_of_pos (by linarith), abs_of_neg (by linarith)] at near'
      linarith

theorem beyond_iff (h : GridNearest v w) :
    2 ^ (1024 : ℤ) ≤ |w| ↔ 2 ^ (1024 : ℤ) - 2 ^ (970 : ℤ) ≤ |v| := by
  refine ⟨fun large => ?_, h.beyond⟩
  wlog nonneg : 0 ≤ v generalizing v w
  · have mirrored := this h.neg (by rwa [abs_neg]) (by linarith)
    rwa [abs_neg] at mirrored
  by_contra small
  have greatest := onGrid_greatest
  have pos : (0 : ℚ) < 2 ^ (970 : ℤ) := by positivity
  rw [abs_of_nonneg nonneg] at small
  rw [abs_of_nonneg (h.le_of_ge .zero nonneg)] at large
  rw [unit_greatest] at greatest
  generalize (2 : ℚ) ^ (1024 : ℤ) = top at *
  generalize (2 : ℚ) ^ (970 : ℤ) = half at *
  rcases le_or_gt v (top - 2 * half) with below | above
  · have atMost := h.le_of_le greatest below
    linarith
  · have near := h.nearest _ greatest
    rw [abs_of_nonpos (by linarith), abs_of_pos (by linarith)] at near
    linarith

end GridNearest

namespace Rounds

variable {v : ℚ} {T : ℤ} {N : ℕ}

theorem nearest_int {q : ℚ} (h : Rounds q N) (K : ℤ) : |q - N| ≤ |q - K| := by
  have near : |q - N| ≤ 1 / 2 := abs_le.mpr ⟨by linarith [h.low], by linarith [h.high]⟩
  by_cases same : K = N
  · simp [same]
  · have apart : (1 : ℚ) ≤ |(N : ℚ) - K| := by
      exact_mod_cast Int.one_le_abs (sub_ne_zero.mpr (Ne.symm same))
    have way : |(N : ℚ) - K| ≤ |q - N| + |q - K| := by
      rw [abs_sub_comm q N]
      exact abs_sub_le _ _ _
    linarith

theorem normal (rounds : Rounds (v / 2 ^ T) N) (long : 2 ^ (T + 52) ≤ v) : 2 ^ 52 ≤ N := by
  have low := rounds.low
  have high := rounds.high
  rw [add_comm, zpow_add₀ two_ne_zero, ← le_div_iff₀ (by positivity)] at long
  have near : (2 : ℚ) ^ (52 : ℤ) < N + 1 := by linarith
  exact Nat.lt_succ_iff.mp (by exact_mod_cast near)

/-- Halfway behind the greatest double, the even number is the next power of two. -/
theorem carry_of_brink (rounds : Rounds (v / 2 ^ (971 : ℤ)) N)
    (large : 2 ^ (1024 : ℤ) - 2 ^ (970 : ℤ) ≤ v) : (2 : ℚ) ^ (1024 : ℤ) ≤ N * 2 ^ (971 : ℤ) := by
  have unit : (0 : ℚ) < 2 ^ (971 : ℤ) := by positivity
  have brink : (2 : ℚ) ^ 53 - 1 / 2 ≤ v / 2 ^ (971 : ℤ) := by
    rw [le_div_iff₀ unit]
    rw [top_eq, unit_greatest] at *
    generalize (2 : ℚ) ^ (970 : ℤ) = half at *
    linarith
  have high := rounds.high
  have above : 2 ^ 53 ≤ N + 1 := by
    have near : (2 : ℚ) ^ 53 ≤ N + 1 := by linarith
    exact_mod_cast near
  have carry : 2 ^ 53 ≤ N := by
    by_contra short
    have last : N = 2 ^ 53 - 1 := by omega
    have cast : (N : ℚ) = 2 ^ 53 - 1 := by
      rw [last]
      norm_num
    have even := rounds.even (.inr (by linarith))
    omega
  rw [top_eq]
  exact mul_le_mul_of_nonneg_right (by exact_mod_cast carry) unit.le

theorem onGrid (rounds : Rounds (v / 2 ^ T) N) (least : -1074 ≤ T) (high : v < 2 ^ (T + 53)) :
    OnGrid (N * 2 ^ T) := by
  rcases (rounds.le_carry high).lt_or_eq with short | carry
  · exact ⟨N, T, by rw [Nat.abs_cast]; exact_mod_cast short, least, by norm_cast⟩
  · refine ⟨2 ^ 52, T + 1, by norm_num, by omega, ?_⟩
    rw [carry, zpow_add_one₀ two_ne_zero]
    push_cast
    ring

/-- No number of the grid is nearer than the whole number of units. -/
theorem nearest_onGrid (rounds : Rounds (v / 2 ^ T) N) (long : 2 ^ (T + 52) ≤ v ∨ T = -1074)
    {u : ℚ} (hu : OnGrid u) : |v - N * 2 ^ T| ≤ |v - u| := by
  have unit : (0 : ℚ) < 2 ^ T := by positivity
  have nearest (K : ℤ) : |v - N * 2 ^ T| ≤ |v - K * 2 ^ T| := by
    have scaled (x : ℚ) : |v - x * 2 ^ T| = |v / 2 ^ T - x| * 2 ^ T := by
      rw [← abs_of_pos unit, ← abs_mul, abs_of_pos unit, sub_mul, div_mul_cancel₀ _ unit.ne']
    rw [scaled, scaled]
    exact mul_le_mul_of_nonneg_right (rounds.nearest_int K) unit.le
  obtain ⟨k, e, short, steps, rfl⟩ := hu
  rcases le_or_gt T e with coarse | fine
  · rw [steps_eq k coarse]
    exact nearest _
  · -- All of the grid that is finer lies below the least number of 53 bits.
    have long := long.resolve_right (by omega)
    have least53 : (2 ^ 52 : ℤ) * (2 : ℚ) ^ T ≤ v := by
      rw [add_comm, zpow_add₀ two_ne_zero] at long
      exact_mod_cast long
    have below : (k : ℚ) * 2 ^ e ≤ (2 ^ 52 : ℤ) * 2 ^ T := by
      have short : (k : ℚ) ≤ 2 ^ 53 := by exact_mod_cast (le_abs_self k).trans short.le
      calc (k : ℚ) * 2 ^ e ≤ 2 ^ 53 * 2 ^ (T - 1) :=
            mul_le_mul short (zpow_le_zpow_right₀ one_le_two (by omega)) (by positivity)
              (by positivity)
        _ = (2 ^ 52 : ℤ) * 2 ^ T := by
            rw [zpow_sub_one₀ two_ne_zero]
            push_cast
            ring
    refine (nearest (2 ^ 52)).trans ?_
    rw [abs_of_nonneg (by linarith), abs_of_nonneg (by linarith)]
    linarith

theorem beyond (rounds : Rounds (v / 2 ^ T) N) (high : v < 2 ^ (T + 53))
    (long : 2 ^ (T + 52) ≤ v ∨ T = -1074) (large : 2 ^ (1024 : ℤ) - 2 ^ (970 : ℤ) ≤ v) :
    (2 : ℚ) ^ (1024 : ℤ) ≤ N * 2 ^ T := by
  have far : 971 ≤ T := by
    by_contra near
    have below : v < 2 ^ (1023 : ℤ) :=
      high.trans_le (zpow_le_zpow_right₀ one_le_two (by omega))
    have half : (2 : ℚ) ^ (970 : ℤ) ≤ 2 ^ (1023 : ℤ) :=
      zpow_le_zpow_right₀ one_le_two (by norm_num)
    have double : (2 : ℚ) ^ (1024 : ℤ) = 2 * 2 ^ (1023 : ℤ) := by
      rw [← zpow_one_add₀ two_ne_zero]
      rfl
    rw [double] at large
    generalize (2 : ℚ) ^ (1023 : ℤ) = u at *
    linarith
  rcases far.eq_or_lt with rfl | farther
  · exact rounds.carry_of_brink large
  · exact top_le (rounds.normal (long.resolve_right (by omega))) (by omega)

/-- A number that is rounded in units of its last place is rounded on the grid. -/
theorem gridNearest (rounds : Rounds (v / 2 ^ T) N) (nonneg : 0 ≤ v) (least : -1074 ≤ T)
    (high : v < 2 ^ (T + 53)) (long : 2 ^ (T + 52) ≤ v ∨ T = -1074) :
    GridNearest v (N * 2 ^ T) := by
  refine ⟨rounds.onGrid least high, fun u hu => rounds.nearest_onGrid long hu, fun large => ?_⟩
  rw [abs_of_nonneg nonneg] at large
  rw [abs_of_nonneg (by positivity)]
  exact rounds.beyond high long large

end Rounds

end RunLog.Decimal
