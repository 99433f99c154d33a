import Mathlib
import RunLog.Proofs.DecimalValues

/-!
# Which double is nearest

The intervals around two doubles do not overlap. Where one ends at the next, only
one of the two has an even mantissa, so no number lies in both, and a larger
number is never rounded to a smaller double (`Surrounds.rank_le`). The intervals
leave nothing out either, from half of the least double on: every number above that
half lies in one of them (`exists_surrounds`), and the others are rounded to zero.

Numbers that are rounded to infinity, and numbers below zero, are not treated.
-/
namespace RunLog.Decimal
open Float.Model UnpackedFloat

/-- The place of a magnitude among all magnitudes. -/
def Magnitude.rank (m : Magnitude) : ℤ :=
  (m.exponent + 1074) * 2 ^ 52 + m.mantissa

namespace Magnitude.WellFormed

variable {m n : Magnitude}

/-- Of two magnitudes the larger one has the larger exponent, or with the same exponent the
larger mantissa. -/
theorem rank_cases (hm : m.WellFormed) (hn : n.WellFormed) (h : m.rank < n.rank) :
    m.exponent < n.exponent ∨ m.exponent = n.exponent ∧ m.mantissa < n.mantissa := by
  have short := hn.short
  have least := hn.least
  have long := hm.long
  rw [rank, rank] at h
  omega

theorem value_pos (hm : m.WellFormed) : 0 < m.value := by
  have pos : (0 : ℚ) < m.mantissa := by exact_mod_cast hm.pos
  rw [value]
  positivity

theorem lower_eq (hm : m.WellFormed) (wide : 2 ^ 52 < m.mantissa ∨ m.exponent = -1074) :
    m.lower = (4 * m.mantissa - 2) * 2 ^ (m.exponent - 2) := by
  have notNarrow : m.narrowBelow ≠ true := fun narrow => by
    have := hm.narrow.mp narrow
    omega
  rw [lower, if_neg notNarrow]

theorem lower_eq_of_narrow (hm : m.WellFormed) (narrow : m.mantissa = 2 ^ 52)
    (above : -1074 < m.exponent) : m.lower = (2 ^ 54 - 1) * 2 ^ (m.exponent - 2) := by
  rw [lower, if_pos (hm.narrow.mpr ⟨narrow, above⟩), narrow]
  norm_num

/-- The interval around a double ends before that of a double with a larger exponent begins, or
where it begins, and then no larger mantissa is left to the exponent of the first. -/
theorem upper_le_lower_of_exponent_lt (hm : m.WellFormed) (hn : n.WellFormed)
    (lt : m.exponent < n.exponent) :
    m.upper ≤ n.lower ∧ (m.upper = n.lower → m.mantissa + 1 = 2 ^ 53) := by
  have pos : (0 : ℚ) < 2 ^ (m.exponent - 2) := by positivity
  have above : -1074 < n.exponent := lt_of_le_of_lt hm.least lt
  have long : 2 ^ 52 ≤ n.mantissa := hn.long.resolve_right above.ne'
  have short : (m.mantissa : ℚ) + 1 ≤ 2 ^ 53 := by exact_mod_cast hm.short
  have double : 2 * (2 : ℚ) ^ (m.exponent - 2) ≤ 2 ^ (n.exponent - 2) := by
    rw [← zpow_one_add₀ two_ne_zero]
    exact zpow_le_zpow_right₀ one_le_two (by omega)
  rw [upper]
  rcases eq_or_lt_of_le long with narrow | wide
  · rw [lower_eq_of_narrow hn narrow.symm above]
    generalize (2 : ℚ) ^ (m.exponent - 2) = u at *
    generalize (2 : ℚ) ^ (n.exponent - 2) = w at *
    norm_num at short ⊢
    refine ⟨by nlinarith, fun touches => ?_⟩
    have last : (m.mantissa : ℚ) = 2 ^ 53 - 1 := by
      norm_num
      nlinarith
    exact_mod_cast (by linarith : (m.mantissa : ℚ) + 1 = 2 ^ 53)
  · rw [lower_eq hn (.inl wide)]
    have wide : (2 : ℚ) ^ 52 + 1 ≤ n.mantissa := by exact_mod_cast wide
    generalize (2 : ℚ) ^ (m.exponent - 2) = u at *
    generalize (2 : ℚ) ^ (n.exponent - 2) = w at *
    have apart : (4 * (m.mantissa : ℚ) + 2) * u < (4 * n.mantissa - 2) * w := by
      calc (4 * (m.mantissa : ℚ) + 2) * u ≤ 2 ^ 55 * u := by
            gcongr
            norm_num at short ⊢
            linarith
        _ = 2 ^ 54 * (2 * u) := by ring
        _ ≤ 2 ^ 54 * w := by gcongr
        _ < (4 * n.mantissa - 2) * w := by
            refine mul_lt_mul_of_pos_right ?_ (by linarith)
            linarith
    exact ⟨apart.le, fun touches => absurd touches apart.ne⟩

theorem upper_le_lower_of_mantissa_lt (hm : m.WellFormed) (hn : n.WellFormed)
    (same : m.exponent = n.exponent) (lt : m.mantissa < n.mantissa) :
    m.upper ≤ n.lower ∧ (m.upper = n.lower → n.mantissa = m.mantissa + 1) := by
  have pos : (0 : ℚ) < 2 ^ (n.exponent - 2) := by positivity
  have long := hm.long
  have wide : 2 ^ 52 < n.mantissa ∨ n.exponent = -1074 := by omega
  have next : (m.mantissa : ℚ) + 1 ≤ n.mantissa := by exact_mod_cast lt
  rw [upper, lower_eq hn wide, same]
  refine ⟨by nlinarith, fun touches => ?_⟩
  have step : (n.mantissa : ℚ) = m.mantissa + 1 := by
    have := mul_right_cancel₀ pos.ne' touches
    linarith
  exact_mod_cast step

/-- The interval around a double ends where that of a larger one begins, or before. Where it
ends there, one of the two mantissas is odd. -/
theorem upper_le_lower (hm : m.WellFormed) (hn : n.WellFormed) (h : m.rank < n.rank) :
    m.upper ≤ n.lower ∧ (m.upper = n.lower → ¬(m.mantissa % 2 = 0 ∧ n.mantissa % 2 = 0)) := by
  rcases rank_cases hm hn h with lt | ⟨same, lt⟩
  · obtain ⟨apart, last⟩ := upper_le_lower_of_exponent_lt hm hn lt
    refine ⟨apart, fun touches even => ?_⟩
    have last := last touches
    omega
  · obtain ⟨apart, next⟩ := upper_le_lower_of_mantissa_lt hm hn same lt
    refine ⟨apart, fun touches even => ?_⟩
    have next := next touches
    omega

theorem value_lt (hm : m.WellFormed) (hn : n.WellFormed) (h : m.rank < n.rank) :
    m.value < n.value := by
  have touch := (upper_le_lower hm hn h).1
  have below := m.surrounds_value.high
  have above := n.surrounds_value.low
  refine lt_of_le_of_ne (below.trans (touch.trans above)) fun same => ?_
  have ends : m.value = m.upper := le_antisymm below (touch.trans (above.trans same.ge))
  have pos : (0 : ℚ) < 2 ^ (m.exponent - 2) := by positivity
  rw [value, upper, quarters] at ends
  nlinarith

theorem rank_le_of_value_le (hm : m.WellFormed) (hn : n.WellFormed) (h : m.value ≤ n.value) :
    m.rank ≤ n.rank :=
  not_lt.mp fun lt => absurd h (not_le.mpr (value_lt hn hm lt))

theorem value_le_of_rank_le (hm : m.WellFormed) (hn : n.WellFormed) (h : m.rank ≤ n.rank) :
    m.value ≤ n.value := by
  rcases h.lt_or_eq with lt | same
  · exact (value_lt hm hn lt).le
  · have parts : m.exponent = n.exponent ∧ m.mantissa = n.mantissa := by
      have := hm.short
      have := hn.short
      have := hm.long
      have := hn.long
      have := hm.least
      have := hn.least
      rw [rank, rank] at same
      omega
    rw [value, value, parts.1, parts.2]

theorem half_lt (hm : m.WellFormed) {v : ℚ} (h : m.Surrounds v) : 2 ^ (-1075 : ℤ) < v := by
  have half : (2 : ℚ) ^ (-1075 : ℤ) = 2 * 2 ^ (-1076 : ℤ) := by
    rw [← zpow_one_add₀ two_ne_zero]
    rfl
  rw [half]
  by_cases single : m.mantissa = 1
  · have bottom : m.exponent = -1074 := hm.long.resolve_left (by omega)
    have least : m.lower = 2 * 2 ^ (-1076 : ℤ) := by
      rw [lower_eq hm (.inr bottom), single, bottom]
      norm_num
    refine lt_of_le_of_ne (least ▸ h.low) fun touches => ?_
    have even := h.even (.inl (least ▸ touches.symm))
    omega
  · have two : (2 : ℚ) ≤ m.mantissa := by
      exact_mod_cast (by have := hm.pos; omega : 2 ≤ m.mantissa)
    have steps : (2 : ℚ) ^ (-1076 : ℤ) ≤ 2 ^ (m.exponent - 2) :=
      zpow_le_zpow_right₀ one_le_two (by have := hm.least; omega)
    have pos : (0 : ℚ) < 2 ^ (m.exponent - 2) := by positivity
    calc 2 * (2 : ℚ) ^ (-1076 : ℤ) ≤ 2 * 2 ^ (m.exponent - 2) := by gcongr
      _ < m.lower := by
          rw [lower]
          refine mul_lt_mul_of_pos_right ?_ pos
          split_ifs <;> linarith
      _ ≤ v := h.low

end Magnitude.WellFormed

namespace Magnitude.Surrounds

variable {m n : Magnitude} {v w : ℚ}

theorem rank_le (around : m.Surrounds v) (around' : n.Surrounds w) (hm : m.WellFormed)
    (hn : n.WellFormed) (h : v ≤ w) : m.rank ≤ n.rank := by
  by_contra lt
  obtain ⟨apart, parity⟩ := hn.upper_le_lower hm (not_le.mp lt)
  have touches : n.upper = m.lower :=
    le_antisymm apart (around.low.trans (h.trans around'.high))
  have atEnd : w = n.upper := le_antisymm around'.high (touches.le.trans (around.low.trans h))
  have atStart : v = m.lower := le_antisymm (h.trans (atEnd.le.trans touches.le)) around.low
  exact parity touches ⟨around'.even (.inr atEnd), around.even (.inl atStart)⟩

theorem value_le (around : m.Surrounds v) (around' : n.Surrounds w) (hm : m.WellFormed)
    (hn : n.WellFormed) (h : v ≤ w) : m.value ≤ n.value :=
  hm.value_le_of_rank_le hn (around.rank_le around' hm hn h)

end Magnitude.Surrounds

theorem exists_rounds {q : ℚ} (h : 0 ≤ q) : ∃ n, Rounds q n := by
  have low := Nat.floor_le h
  have high := Nat.lt_floor_add_one q
  generalize ⌊q⌋₊ = k at low high
  rcases lt_trichotomy q (k + 1 / 2) with below | middle | above
  · refine ⟨k, by linarith, by linarith, fun touches => ?_⟩
    rcases touches with touches | touches <;> linarith
  · rcases Nat.mod_two_eq_zero_or_one k with even | odd
    · exact ⟨k, by linarith, by linarith, fun _ => even⟩
    · exact ⟨k + 1, by push_cast; linarith, by push_cast; linarith, fun _ => by omega⟩
  · refine ⟨k + 1, by push_cast; linarith, by push_cast; linarith, fun touches => ?_⟩
    push_cast at touches
    rcases touches with touches | touches <;> linarith

theorem half_least : (2 : ℚ) ^ (-1075 : ℤ) = 1 / 2 * 2 ^ (-1074 : ℤ) := by
  rw [show (-1075 : ℤ) = -1 + -1074 by rfl, zpow_add₀ two_ne_zero]
  norm_num

section Existence

variable {v : ℚ} {E : ℤ} {n : ℕ}

/-- A number that is rounded to a mantissa of at most 53 bits lies around its double. -/
theorem Rounds.surrounds (rounds : Rounds (v / 2 ^ E) n) (pos : 0 < n) (short : n < 2 ^ 53)
    (least : -1074 ≤ E) (greatest : E ≤ 971) (long : 2 ^ (E + 52) ≤ v ∨ E = -1074) :
    ∃ m : Magnitude, m.WellFormed ∧ m.Surrounds v := by
  obtain ⟨low, high, even⟩ := rounds
  have unit : (0 : ℚ) < 2 ^ E := by positivity
  have whole : 2 ^ 52 ≤ n ∨ E = -1074 := by
    refine long.imp_left fun long => ?_
    rw [zpow_add₀ two_ne_zero, ← le_div_iff₀' unit] at long
    have near : (2 : ℚ) ^ (52 : ℤ) < n + 1 := by linarith
    exact Nat.lt_succ_iff.mp (by exact_mod_cast near)
  rw [le_div_iff₀ unit] at low
  rw [div_le_iff₀ unit] at high
  rw [div_eq_iff unit.ne', div_eq_iff unit.ne'] at even
  have lower : ((n : ℚ) - 1 / 2) * 2 ^ E = (4 * n - 2) * 2 ^ (E - 2) := by
    rw [quarters]
    ring
  have upper : ((n : ℚ) + 1 / 2) * 2 ^ E = (4 * n + 2) * 2 ^ (E - 2) := by
    rw [quarters]
    ring
  rw [lower] at low even
  rw [upper] at high even
  by_cases narrow : n = 2 ^ 52 ∧ -1074 < E
  · have long : 2 ^ (E + 52) ≤ v := long.resolve_right narrow.2.ne'
    have above : (4 * (n : ℚ) - 1) * 2 ^ (E - 2) < v := by
      refine lt_of_lt_of_le ?_ long
      rw [zpow_add₀ two_ne_zero, quarters E, narrow.1]
      have quarter : (0 : ℚ) < 2 ^ (E - 2) := by positivity
      norm_num
      linarith
    exact ⟨⟨n, E, true⟩, ⟨pos, short, least, greatest, whole, by simpa using narrow⟩, above.le,
      high, fun ends => ends.elim (fun touches => absurd touches above.ne') fun touches =>
        even (.inr touches)⟩
  · exact ⟨⟨n, E, false⟩, ⟨pos, short, least, greatest, whole, by simpa using narrow⟩, low,
      high, even⟩

/-- A number that is rounded up to the next power of two lies around that. -/
theorem Rounds.surrounds_carry (rounds : Rounds (v / 2 ^ E) (2 ^ 53)) (below : v < 2 ^ (E + 53))
    (least : -1074 ≤ E) (greatest : E ≤ 970) : ∃ m : Magnitude, m.WellFormed ∧ m.Surrounds v := by
  have low := rounds.low
  have unit : (0 : ℚ) < 2 ^ (E - 1) := by positivity
  have step : (2 : ℚ) ^ E = 2 * 2 ^ (E - 1) := by
    rw [← zpow_one_add₀ two_ne_zero]
    congr 1
    omega
  rw [le_div_iff₀ (by positivity), step] at low
  rw [zpow_add₀ two_ne_zero, step] at below
  norm_num at low below
  refine ⟨⟨2 ^ 52, E + 1, true⟩, ⟨by norm_num, by norm_num, by dsimp only; omega,
    by dsimp only; omega, .inl le_rfl, by simp; omega⟩, ?_, ?_, fun _ => by norm_num⟩
  · rw [Magnitude.lower, show E + 1 - 2 = E - 1 by omega]
    norm_num
    linarith
  · rw [Magnitude.upper, show E + 1 - 2 = E - 1 by omega]
    norm_num
    linarith

theorem Rounds.pos (rounds : Rounds (v / 2 ^ E) n) (low : 2 ^ (-1075 : ℤ) < v)
    (long : 2 ^ (E + 52) ≤ v ∨ E = -1074) : 0 < n := by
  refine Nat.pos_of_ne_zero fun zero => ?_
  have unit : (0 : ℚ) < 2 ^ E := by positivity
  have high := rounds.high
  rw [zero, div_le_iff₀ unit] at high
  rcases long with long | bottom
  · rw [zpow_add₀ two_ne_zero] at long
    norm_num at long high
    linarith
  · rw [bottom] at high
    rw [half_least] at low
    simp only [Nat.cast_zero, zero_add] at high
    exact absurd low (not_lt.mpr high)

/-- A number of 53 bits is rounded to as many bits, or up to the next power of two. -/
theorem Rounds.le_carry (rounds : Rounds (v / 2 ^ E) n) (below : v < 2 ^ (E + 53)) :
    n ≤ 2 ^ 53 := by
  have low := rounds.low
  rw [zpow_add₀ two_ne_zero, ← div_lt_iff₀' (by positivity)] at below
  have near : (n : ℚ) < 2 ^ (53 : ℤ) + 1 := by linarith
  exact Nat.lt_succ_iff.mp (by exact_mod_cast near)

/-- Above half of the least double every number lies around a double, if it is not too large. -/
theorem exists_surrounds (low : 2 ^ (-1075 : ℤ) < v) (high : v < 2 ^ (1023 : ℤ)) :
    ∃ m : Magnitude, m.WellFormed ∧ m.Surrounds v := by
  have pos : 0 < v := lt_trans (by positivity) low
  have under : (2 : ℚ) ^ Int.log 2 v ≤ v := Int.zpow_log_le_self one_lt_two pos
  have beyond : v < (2 : ℚ) ^ (Int.log 2 v + 1) := Int.lt_zpow_succ_log_self one_lt_two v
  generalize Int.log 2 v = l at under beyond
  have bounded : l < 1023 := (zpow_lt_zpow_iff_right₀ one_lt_two).mp (under.trans_lt high)
  obtain ⟨E, hE⟩ : ∃ E, max (l - 52) (-1074) = E := ⟨_, rfl⟩
  have below : v < 2 ^ (E + 53) :=
    beyond.trans_le (zpow_le_zpow_right₀ one_le_two (by omega))
  have long : 2 ^ (E + 52) ≤ v ∨ E = -1074 := by
    rcases le_or_gt (-1074) (l - 52) with normal | subnormal
    · refine .inl (le_trans ?_ under)
      exact zpow_le_zpow_right₀ one_le_two (by omega)
    · exact .inr (by omega)
  obtain ⟨n, rounds⟩ := exists_rounds (div_nonneg pos.le (by positivity : (0 : ℚ) ≤ 2 ^ E))
  rcases (rounds.le_carry below).lt_or_eq with short | carry
  · exact rounds.surrounds (rounds.pos low long) short (by omega) (by omega) long
  · subst carry
    exact rounds.surrounds_carry below (by omega) (by omega)

end Existence

end RunLog.Decimal
