import Mathlib
import RunLog.Decimal.Binary

/-!
# The nearest double

An operation on doubles computes a quotient or a product to as many bits as it
needs, remembers how far the exact value lies above, and rounds once. This
module says which double comes out: the exact values that are rounded to a given
double fill an interval around it, to which the ends belong when its mantissa
is even.

Only positive numbers that are rounded to a finite double are treated. That a
value rounded to zero or to infinity lies outside of every interval is not
needed and not shown.
-/
namespace RunLog.Decimal
open Float.Model UnpackedFloat

/-- An extended mantissa marks a number if it holds its whole part, its first bit behind the
point, and whether anything follows. -/
def Marks (em : ExtendedMantissa) (q : ℚ) : Prop :=
  ∃ rest : ℚ, 0 ≤ rest ∧ rest < 1 ∧ (em.stickyBit = true ↔ rest ≠ 0) ∧
    2 * q = 2 * em.mantissa + (if em.roundBit then 1 else 0) + rest

/-- A whole number to which a number is rounded: none is nearer, and of two the even one. -/
structure Rounds (q : ℚ) (n : ℕ) : Prop where
  low : n - 1 / 2 ≤ q
  high : q ≤ n + 1 / 2
  even : q = n - 1 / 2 ∨ q = n + 1 / 2 → n % 2 = 0

namespace Marks

variable {em : ExtendedMantissa} {q : ℚ}

theorem exact (m : ℕ) : Marks (.ofMantissaAndAccuracy m .exact) m :=
  ⟨0, le_rfl, one_pos, by simp [ExtendedMantissa.ofMantissaAndAccuracy],
    by simp [ExtendedMantissa.ofMantissaAndAccuracy]⟩

theorem fraction {num den : ℕ} (h : num < den) (m : ℕ) :
    Marks (.ofMantissaAndAccuracy m (accuracyOfFraction num den)) (m + num / den) := by
  have pos : (0 : ℚ) < den := by exact_mod_cast Nat.zero_lt_of_lt h
  have below : (num : ℚ) < den := by exact_mod_cast h
  have nonneg : (0 : ℚ) ≤ num := Nat.cast_nonneg num
  by_cases zero : num = 0
  · subst zero
    simpa [accuracyOfFraction] using exact m
  have positive : (0 : ℚ) < num := by exact_mod_cast Nat.pos_of_ne_zero zero
  rw [accuracyOfFraction, if_neg zero]
  rcases lt_trichotomy (2 * num) den with lt | eq | gt
  · rw [compare_lt_iff_lt.mpr lt]
    have lt : 2 * (num : ℚ) < den := by exact_mod_cast lt
    refine ⟨2 * (num / den), by positivity, ?_, ?_, ?_⟩
    · rw [← mul_div_assoc, div_lt_one pos]
      exact lt
    · simp [ExtendedMantissa.ofMantissaAndAccuracy, zero, pos.ne']
    · simp [ExtendedMantissa.ofMantissaAndAccuracy]
      ring
  · rw [compare_eq_iff_eq.mpr eq]
    have eq : (den : ℚ) = 2 * num := by exact_mod_cast eq.symm
    refine ⟨0, le_rfl, one_pos, by simp [ExtendedMantissa.ofMantissaAndAccuracy], ?_⟩
    simp only [ExtendedMantissa.ofMantissaAndAccuracy, if_true, eq]
    field_simp
    ring
  · rw [compare_gt_iff_gt.mpr gt]
    have gt : (den : ℚ) < 2 * num := by exact_mod_cast gt
    have above : 1 < 2 * ((num : ℚ) / den) := by
      rw [← mul_div_assoc, one_lt_div pos]
      exact gt
    have one : (num : ℚ) / den < 1 := (div_lt_one pos).mpr below
    refine ⟨2 * (num / den) - 1, by linarith, by linarith, ?_, ?_⟩
    · simp only [ExtendedMantissa.ofMantissaAndAccuracy, true_iff]
      linarith
    · simp only [ExtendedMantissa.ofMantissaAndAccuracy, if_true]
      ring

theorem mantissa_le (h : Marks em q) : (em.mantissa : ℚ) ≤ q := by
  obtain ⟨rest, nonneg, -, -, eq⟩ := h
  split_ifs at eq <;> linarith

theorem lt_mantissa (h : Marks em q) : q < em.mantissa + 1 := by
  obtain ⟨rest, -, below, -, eq⟩ := h
  split_ifs at eq <;> linarith

theorem shiftRightOne (h : Marks em q) : Marks em.shiftRightOne (q / 2) := by
  obtain ⟨rest, nonneg, below, sticky, eq⟩ := h
  have halves : (em.mantissa : ℚ) = 2 * (em.mantissa / 2 : ℕ) + (em.mantissa % 2 : ℕ) := by
    exact_mod_cast (Nat.div_add_mod em.mantissa 2).symm
  refine ⟨((if em.roundBit then 1 else 0) + rest) / 2, ?_, ?_, ?_, ?_⟩
  · split_ifs <;> linarith
  · split_ifs <;> linarith
  · simp only [ExtendedMantissa.shiftRightOne, Bool.or_eq_true, sticky]
    cases em.roundBit
    · simp
    · simp only [true_or, if_true, true_iff]
      linarith
  · have bit : (if em.shiftRightOne.roundBit then 1 else 0 : ℚ) = (em.mantissa % 2 : ℕ) := by
      rcases Nat.mod_two_eq_zero_or_one em.mantissa with h | h <;>
        simp [ExtendedMantissa.shiftRightOne, h]
    rw [bit]
    change 2 * (q / 2) = 2 * ((em.mantissa / 2 : ℕ) : ℚ) + _ + _
    linarith

theorem shiftRight (h : Marks em q) (n : ℕ) : Marks (em >>> n) (q / 2 ^ n) := by
  change Marks (n.repeat ExtendedMantissa.shiftRightOne em) (q / 2 ^ n)
  induction n with
  | zero => simpa [Nat.repeat] using h
  | succ n ih =>
      rw [Nat.repeat, pow_succ, ← div_div]
      exact ih.shiftRightOne

/-- The mantissa is rounded like the number that it marks. -/
theorem roundedMantissa (h : Marks em q) {n : ℕ} (hn : Rounds q n) :
    em.roundedMantissa = n := by
  obtain ⟨rest, nonneg, below, sticky, eq⟩ := h
  obtain ⟨low, high, even⟩ := hn
  obtain ⟨m, round, stick⟩ := em
  cases round <;> cases stick <;>
    simp only [Bool.false_eq_true, if_false, if_true, false_iff, true_iff, not_not] at sticky eq <;>
    simp only [ExtendedMantissa.roundedMantissa, ExtendedMantissa.accuracy,
      Accuracy.roundToNearestEven]
  · have above : (n : ℚ) < m + 1 := by linarith
    have under : (m : ℚ) < n + 1 := by linarith
    norm_cast at above under
    omega
  · have above : (n : ℚ) < m + 1 := by linarith
    have positive : 0 < rest := lt_of_le_of_ne nonneg (Ne.symm sticky)
    have under : (m : ℚ) < n + 1 := by linarith
    norm_cast at above under
    omega
  · have above : (n : ℚ) < m + 2 := by linarith
    have under : (m : ℚ) < n + 1 := by linarith
    norm_cast at above under
    rcases (by omega : n = m ∨ n = m + 1) with rfl | rfl
    · have := even (.inr (by linarith))
      omega
    · have := even (.inl (by push_cast; linarith))
      omega
  · have positive : 0 < rest := lt_of_le_of_ne nonneg (Ne.symm sticky)
    have above : (n : ℚ) < m + 2 := by linarith
    have under : (m : ℚ) < n := by linarith
    norm_cast at above under
    omega

end Marks

theorem targetExponent_eq (t : Int) :
    Format.binary64.targetExponent t = max (t - 53) (-1074) := rfl

theorem targetExponent_of_bounds {m : ℕ} {e T : ℤ} {accuracy : Accuracy} {q : ℚ}
    (marks : Marks (.ofMantissaAndAccuracy m accuracy) q)
    (fits : e ≤ Format.binary64.targetExponent (totalExponent m e))
    (least : -1074 ≤ T) (high : q * 2 ^ e < 2 ^ (T + 53))
    (long : 2 ^ (T + 52) ≤ q * 2 ^ e ∨ T = -1074) :
    Format.binary64.targetExponent (totalExponent m e) = T := by
  have whole : (ExtendedMantissa.ofMantissaAndAccuracy m accuracy).mantissa = m := by
    cases accuracy with
    | exact => rfl
    | inexact o => cases o <;> rfl
  have low := marks.mantissa_le
  have next := marks.lt_mantissa
  rw [whole] at low next
  have pos : (0 : ℚ) < 2 ^ e := by positivity
  rw [targetExponent_eq, totalExponent] at fits ⊢
  rcases Nat.eq_zero_or_pos m with rfl | hm
  · rw [Nat.log2_zero] at fits ⊢
    have small : T = -1074 := by
      refine long.resolve_left fun above => ?_
      have below : (2 : ℚ) ^ (T + 52) < 2 ^ e := by
        calc (2 : ℚ) ^ (T + 52) ≤ q * 2 ^ e := above
          _ < 1 * 2 ^ e := by
            refine mul_lt_mul_of_pos_right ?_ pos
            simpa using next
          _ = 2 ^ e := one_mul _
      have := (zpow_lt_zpow_iff_right₀ one_lt_two).mp below
      omega
    omega
  · have bits : (2 : ℚ) ^ (m.log2 : ℤ) ≤ m := by exact_mod_cast Nat.log2_self_le hm.ne'
    have bits' : (m : ℚ) + 1 ≤ 2 ^ ((m.log2 : ℤ) + 1) := by exact_mod_cast Nat.lt_log2_self
    have under : (2 : ℚ) ^ (m.log2 + e) < 2 ^ (T + 53) := by
      calc (2 : ℚ) ^ (m.log2 + e) = 2 ^ (m.log2 : ℤ) * 2 ^ e := zpow_add₀ two_ne_zero _ _
        _ ≤ q * 2 ^ e := by gcongr; exact bits.trans low
        _ < 2 ^ (T + 53) := high
    have under := (zpow_lt_zpow_iff_right₀ one_lt_two).mp under
    rcases long with above | rfl
    · have above : (2 : ℚ) ^ (T + 52) < 2 ^ (m.log2 + 1 + e) := by
        calc (2 : ℚ) ^ (T + 52) ≤ q * 2 ^ e := above
          _ < 2 ^ ((m.log2 : ℤ) + 1) * 2 ^ e := by gcongr; exact next.trans_le bits'
          _ = 2 ^ (m.log2 + 1 + e) := (zpow_add₀ two_ne_zero _ _).symm
      have above := (zpow_lt_zpow_iff_right₀ one_lt_two).mp above
      omega
    · omega

section Rounding

variable {m : ℕ} {e T : ℤ} {accuracy : Accuracy} {q : ℚ} {N : ℕ}

/-- The second shift of a rounding has only the carry to handle. -/
theorem roundWithAccuracy_eq (s : Sign)
    (marks : Marks (.ofMantissaAndAccuracy m accuracy) q)
    (fits : e ≤ Format.binary64.targetExponent (totalExponent m e))
    (target : Format.binary64.targetExponent (totalExponent m e) = T)
    (rounds : Rounds (q * 2 ^ e / 2 ^ T) N) :
    roundWithAccuracy Format.binary64 s m e accuracy =
      let shifted := shiftToTargetExponent Format.binary64 N T .exact
      if h : shifted.1.mantissa = 0 then .zero s
      else .finite s shifted.1.mantissa shifted.2 (Nat.pos_of_ne_zero h) := by
  rw [target] at fits
  have amount : ((T - e).toNat : ℤ) = T - e := Int.toNat_of_nonneg (by omega)
  have scaled : q / 2 ^ (T - e).toNat = q * 2 ^ e / 2 ^ T := by
    rw [← zpow_natCast, amount, zpow_sub₀ two_ne_zero]
    field_simp
  have rounded := (marks.shiftRight (T - e).toNat).roundedMantissa (scaled ▸ rounds)
  have exponent : e + ((T - e).toNat : ℤ) = T := by omega
  rw [roundWithAccuracy, shiftToTargetExponent, target, shiftToExponent]
  simp only [rounded, exponent]

theorem roundWithAccuracy_finite (s : Sign)
    (marks : Marks (.ofMantissaAndAccuracy m accuracy) q)
    (fits : e ≤ Format.binary64.targetExponent (totalExponent m e))
    (target : Format.binary64.targetExponent (totalExponent m e) = T) (least : -1074 ≤ T)
    (rounds : Rounds (q * 2 ^ e / 2 ^ T) N) (pos : 0 < N) (short : N < 2 ^ 53) :
    roundWithAccuracy Format.binary64 s m e accuracy = .finite s N T pos := by
  have bits : N.log2 < 53 := (Nat.log2_lt pos.ne').mpr short
  have stays : shiftToTargetExponent Format.binary64 N T .exact = (⟨N, false, false⟩, T) := by
    have amount : (Format.binary64.targetExponent (totalExponent N T) - T).toNat = 0 := by
      rw [targetExponent_eq, totalExponent]
      omega
    rw [shiftToTargetExponent, shiftToExponent, amount]
    simp [ExtendedMantissa.ofMantissaAndAccuracy]
    rfl
  rw [roundWithAccuracy_eq s marks fits target rounds, stays]
  simp [pos.ne']

theorem roundWithAccuracy_carry (s : Sign)
    (marks : Marks (.ofMantissaAndAccuracy m accuracy) q)
    (fits : e ≤ Format.binary64.targetExponent (totalExponent m e))
    (target : Format.binary64.targetExponent (totalExponent m e) = T) (least : -1074 ≤ T)
    (rounds : Rounds (q * 2 ^ e / 2 ^ T) (2 ^ 53)) :
    roundWithAccuracy Format.binary64 s m e accuracy =
      .finite s (2 ^ 52) (T + 1) (by decide) := by
  have moves : shiftToTargetExponent Format.binary64 (2 ^ 53) T .exact =
      (⟨2 ^ 52, false, false⟩, T + 1) := by
    have amount :
        (Format.binary64.targetExponent (totalExponent (2 ^ 53) T) - T).toNat = 1 := by
      rw [targetExponent_eq, totalExponent, Nat.log2_two_pow]
      omega
    rw [shiftToTargetExponent, shiftToExponent, amount]
    rfl
  rw [roundWithAccuracy_eq s marks fits target rounds, moves]
  simp

end Rounding

/-- What the magnitude of a positive double is like: the mantissa is as long as it can be. -/
structure Magnitude.WellFormed (m : Magnitude) : Prop where
  pos : 0 < m.mantissa
  short : m.mantissa < 2 ^ 53
  least : -1074 ≤ m.exponent
  greatest : m.exponent ≤ 971
  long : 2 ^ 52 ≤ m.mantissa ∨ m.exponent = -1074
  narrow : m.narrowBelow = true ↔ m.mantissa = 2 ^ 52 ∧ -1074 < m.exponent

def Magnitude.value (m : Magnitude) : ℚ :=
  m.mantissa * 2 ^ m.exponent

/-- The lower end of the interval around a double, in the middle to the next smaller one. -/
def Magnitude.lower (m : Magnitude) : ℚ :=
  (4 * m.mantissa - if m.narrowBelow then 1 else 2) * 2 ^ (m.exponent - 2)

/-- The upper end of the interval around a double, in the middle to the next larger one. -/
def Magnitude.upper (m : Magnitude) : ℚ :=
  (4 * m.mantissa + 2) * 2 ^ (m.exponent - 2)

/-- The interval around a double; its ends belong to it if the mantissa is even. -/
structure Magnitude.Surrounds (m : Magnitude) (v : ℚ) : Prop where
  low : m.lower ≤ v
  high : v ≤ m.upper
  even : v = m.lower ∨ v = m.upper → m.mantissa % 2 = 0

theorem zpow_toNat {b : ℚ} (hb : b ≠ 0) (e : ℤ) : b ^ e = b ^ e.toNat / b ^ (-e).toNat := by
  rw [← zpow_natCast, ← zpow_natCast, ← zpow_sub₀ hb]
  congr 1
  omega

theorem quarters (e : ℤ) : (2 : ℚ) ^ e = 4 * 2 ^ (e - 2) := by
  rw [zpow_sub₀ two_ne_zero]
  norm_num
  ring

theorem halves (e : ℤ) : (2 : ℚ) ^ (e - 1) = 2 * 2 ^ (e - 2) := by
  rw [zpow_sub₀ two_ne_zero, zpow_sub₀ two_ne_zero]
  norm_num
  ring

theorem Magnitude.surrounds_value (m : Magnitude) : m.Surrounds m.value := by
  rw [value, quarters]
  have pos : (0 : ℚ) < 2 ^ (m.exponent - 2) := by positivity
  have below : m.lower < m.mantissa * (4 * 2 ^ (m.exponent - 2)) := by
    rw [lower]
    split_ifs <;> linarith
  have above : m.mantissa * (4 * 2 ^ (m.exponent - 2)) < m.upper := by
    rw [upper]
    linarith
  exact ⟨below.le, above.le, fun h => h.elim (absurd · below.ne') (absurd · above.ne)⟩

namespace Magnitude.Surrounds

variable {m : Magnitude} {v : ℚ}

/-- At or above the double, and where the doubles below are as far apart as those above, the
value is rounded in units of the last place. -/
theorem rounds (h : m.Surrounds v) (wf : m.WellFormed)
    (wide : m.narrowBelow = true → m.value ≤ v) :
    Rounds (v / 2 ^ m.exponent) m.mantissa ∧ v < 2 ^ (m.exponent + 53) ∧
      (2 ^ (m.exponent + 52) ≤ v ∨ m.exponent = -1074) := by
  obtain ⟨low, high, even⟩ := h
  rw [zpow_add₀ two_ne_zero, zpow_add₀ two_ne_zero]
  rw [value, quarters] at wide
  rw [lower] at low even
  rw [upper] at high even
  rw [quarters]
  have pos : (0 : ℚ) < 2 ^ (m.exponent - 2) := by positivity
  generalize (2 : ℚ) ^ (m.exponent - 2) = u at *
  have short : (m.mantissa : ℚ) + 1 ≤ 2 ^ 53 := by exact_mod_cast wf.short
  have low' : (4 * m.mantissa - 2) * u ≤ v := by
    split_ifs at low
    · refine le_trans ?_ low
      gcongr
      norm_num
    · exact low
  refine ⟨⟨?_, ?_, ?_⟩, ?_, ?_⟩
  · rw [le_div_iff₀ (by positivity)]
    linarith
  · rw [div_le_iff₀ (by positivity)]
    linarith
  · rintro (heq | heq)
    · rw [div_eq_iff (by positivity)] at heq
      refine even (.inl ?_)
      split_ifs with narrow
      · nlinarith [wide narrow]
      · linarith
    · rw [div_eq_iff (by positivity)] at heq
      exact even (.inr (by linarith))
  · norm_num
    nlinarith
  · rcases wf.long with long | least
    · rcases eq_or_lt_of_le long with eq | lt
      · rcases eq_or_lt_of_le wf.least with bottom | above
        · exact .inr bottom.symm
        · refine .inl ((wide (wf.narrow.mpr ⟨eq.symm, above⟩)).trans' ?_)
          rw [← eq]
          norm_num
          linarith
      · have lt : (2 : ℚ) ^ 52 + 1 ≤ m.mantissa := by exact_mod_cast lt
        have scaled := mul_le_mul_of_nonneg_right lt pos.le
        refine .inl (le_trans ?_ low')
        norm_num
        linarith
    · exact .inr least

/-- Below a double at which the exponent changes, the unit is half of its own. -/
theorem rounds_below (h : m.Surrounds v) (narrow : m.mantissa = 2 ^ 52 ∧ m.narrowBelow = true)
    (below : v < m.value) :
    Rounds (v / 2 ^ (m.exponent - 1)) (2 ^ 53) ∧ v < 2 ^ (m.exponent - 1 + 53) ∧
      2 ^ (m.exponent - 1 + 52) ≤ v := by
  obtain ⟨low, -, -⟩ := h
  rw [value, narrow.1, quarters] at below
  rw [lower, narrow.1, if_pos narrow.2] at low
  rw [zpow_add₀ two_ne_zero, zpow_add₀ two_ne_zero, halves]
  have pos : (0 : ℚ) < 2 ^ (m.exponent - 2) := by positivity
  generalize (2 : ℚ) ^ (m.exponent - 2) = u at *
  norm_num at low below ⊢
  refine ⟨⟨?_, ?_, fun _ => rfl⟩, by linarith, by linarith⟩
  · rw [le_div_iff₀ (by positivity)]
    norm_num
    linarith
  · rw [div_le_iff₀ (by positivity)]
    norm_num
    linarith

end Magnitude.Surrounds

/-- A value in the interval around a double is rounded to this double. -/
theorem Magnitude.WellFormed.roundWithAccuracy {m : Magnitude} (wf : m.WellFormed) {k : ℕ}
    {e : ℤ} {accuracy : Accuracy} {q : ℚ} (around : m.Surrounds (q * 2 ^ e))
    (marks : Marks (.ofMantissaAndAccuracy k accuracy) q)
    (fits : e ≤ Format.binary64.targetExponent (totalExponent k e)) (s : Sign) :
    UnpackedFloat.roundWithAccuracy Format.binary64 s k e accuracy =
      .finite s m.mantissa m.exponent wf.pos := by
  by_cases wide : m.narrowBelow = true → m.value ≤ q * 2 ^ e
  · obtain ⟨rounds, high, long⟩ := around.rounds wf wide
    have target := targetExponent_of_bounds marks fits wf.least high long
    exact roundWithAccuracy_finite s marks fits target wf.least rounds wf.pos wf.short
  · push Not at wide
    obtain ⟨mantissa, above⟩ := wf.narrow.mp wide.1
    obtain ⟨rounds, high, long⟩ := around.rounds_below ⟨mantissa, wide.1⟩ wide.2
    have least : -1074 ≤ m.exponent - 1 := by omega
    have target := targetExponent_of_bounds marks fits least high (.inl long)
    rw [roundWithAccuracy_carry s marks fits target least rounds]
    simp [mantissa]

section Operations

variable {m : Magnitude} {m₁ m₂ : ℕ} {e₁ e₂ : ℤ}

theorem fits_of_bits {k : ℕ} {e : ℤ} (h : e ≤ -1074 ∨ 2 ^ 52 ≤ k) :
    e ≤ Format.binary64.targetExponent (totalExponent k e) := by
  rw [targetExponent_eq, totalExponent]
  rcases h with least | long
  · exact le_max_of_le_right least
  · have bits : 52 ≤ k.log2 := (Nat.le_log2 (by omega)).mpr long
    refine le_max_of_le_left ?_
    omega

/-- A quotient is computed to 53 bits at least, or to the least exponent. -/
theorem divCore_fits {k : ℕ} (h₁ : 0 < m₁) (h₂ : 0 < m₂)
    (bits : e₁ - e₂ - k ≤ Format.binary64.targetExponent
      (totalExponent m₁ e₁ - totalExponent m₂ e₂)) :
    e₁ - e₂ - k ≤ -1074 ∨ 2 ^ 52 ≤ (m₁ <<< k) / m₂ := by
  rw [targetExponent_eq, totalExponent, totalExponent] at bits
  rcases le_or_gt (e₁ - e₂ - k) (-1074) with least | above
  · exact .inl least
  have amount : m₂.log2 + 53 ≤ m₁.log2 + k := by omega
  refine .inr ((Nat.le_div_iff_mul_le h₂).mpr ?_)
  have small : m₂ ≤ 2 ^ (m₂.log2 + 1) := Nat.lt_log2_self.le
  have large : 2 ^ m₁.log2 ≤ m₁ := Nat.log2_self_le h₁.ne'
  calc 2 ^ 52 * m₂ ≤ 2 ^ 52 * 2 ^ (m₂.log2 + 1) := Nat.mul_le_mul_left _ small
    _ = 2 ^ (m₂.log2 + 53) := by rw [← pow_add]; congr 1; omega
    _ ≤ 2 ^ (m₁.log2 + k) := Nat.pow_le_pow_right two_pos amount
    _ = 2 ^ m₁.log2 * 2 ^ k := pow_add _ _ _
    _ ≤ m₁ * 2 ^ k := Nat.mul_le_mul_right _ large
    _ = m₁ <<< k := (Nat.shiftLeft_eq m₁ k).symm

/-- A quotient is rounded once, from an extended mantissa that marks its exact value. -/
theorem div_marks (e₁ e₂ : ℤ) (h₁ : 0 < m₁) (h₂ : 0 < m₂) :
    ∃ (k : ℕ) (e : ℤ) (accuracy : Accuracy) (q : ℚ),
      UnpackedFloat.div Format.binary64 (.finite .positive m₁ e₁ h₁)
          (.finite .positive m₂ e₂ h₂) =
        roundWithAccuracy Format.binary64 .positive k e accuracy ∧
      Marks (.ofMantissaAndAccuracy k accuracy) q ∧
      e ≤ Format.binary64.targetExponent (totalExponent k e) ∧
      q * 2 ^ e = m₁ * 2 ^ e₁ / (m₂ * 2 ^ e₂) := by
  simp only [UnpackedFloat.div, divCore]
  generalize aim : Format.binary64.targetExponent
    (totalExponent m₁ e₁ - totalExponent m₂ e₂) = t
  obtain ⟨k, hk⟩ : ∃ k : ℕ, (e₁ - e₂ - min (e₁ - e₂) t).toNat = k := ⟨_, rfl⟩
  have exponent : min (e₁ - e₂) t = e₁ - e₂ - k := by omega
  rw [hk, exponent]
  have marks := Marks.fraction (Nat.mod_lt (m₁ <<< k) h₂) (m₁ <<< k / m₂)
  have pos : (m₂ : ℚ) ≠ 0 := by exact_mod_cast h₂.ne'
  have quotient : ((m₁ <<< k / m₂ : ℕ) : ℚ) + (m₁ <<< k % m₂ : ℕ) / m₂ = m₁ * 2 ^ k / m₂ := by
    have parts : (m₂ : ℚ) * (m₁ <<< k / m₂ : ℕ) + (m₁ <<< k % m₂ : ℕ) = m₁ * 2 ^ k := by
      exact_mod_cast (Nat.div_add_mod _ _).trans (Nat.shiftLeft_eq m₁ k)
    rw [← parts]
    field_simp
  rw [quotient] at marks
  refine ⟨_, _, _, _, rfl, marks, fits_of_bits (divCore_fits h₁ h₂ (by omega)), ?_⟩
  rw [zpow_sub₀ two_ne_zero, zpow_sub₀ two_ne_zero, zpow_natCast]
  field_simp

/-- A quotient is rounded to the double that surrounds its exact value. -/
theorem div_finite (wf : m.WellFormed) (h₁ : 0 < m₁) (h₂ : 0 < m₂)
    (around : m.Surrounds (m₁ * 2 ^ e₁ / (m₂ * 2 ^ e₂))) :
    UnpackedFloat.div Format.binary64 (.finite .positive m₁ e₁ h₁)
      (.finite .positive m₂ e₂ h₂) = .finite .positive m.mantissa m.exponent wf.pos := by
  obtain ⟨k, e, accuracy, q, rounded, marks, fits, exact⟩ :=
    div_marks e₁ e₂ h₁ h₂
  rw [rounded]
  exact wf.roundWithAccuracy (exact ▸ around) marks fits _

/-- A product of enough bits is rounded to the double that surrounds its exact value. -/
theorem mul_finite (wf : m.WellFormed) (h₁ : 0 < m₁) (h₂ : 0 < m₂) (long : 2 ^ 52 ≤ m₁ * m₂)
    (around : m.Surrounds (m₁ * 2 ^ e₁ * (m₂ * 2 ^ e₂))) :
    UnpackedFloat.mul Format.binary64 (.finite .positive m₁ e₁ h₁)
      (.finite .positive m₂ e₂ h₂) = .finite .positive m.mantissa m.exponent wf.pos := by
  simp only [UnpackedFloat.mul]
  refine wf.roundWithAccuracy ?_ (Marks.exact (m₁ * m₂)) (fits_of_bits (.inr long)) _
  convert around using 1
  rw [zpow_add₀ two_ne_zero]
  push_cast
  ring

end Operations

end RunLog.Decimal
