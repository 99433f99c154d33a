import Mathlib
import RunLog.Proofs.ClosenessLaw
import RunLog.Proofs.RecordValidity
import RunLog.Proofs.RoundedQuotients

/-!
# The range of closeness

A throughput that is not the best of its configuration lies below it by one step in
the last place or more, and so does the rounded quotient lie below one, and the
rounded percentage below a hundred. Neither rounding changes an order. At the other
end there is no such room: a quotient of at most half of the least double becomes
zero, so a run can be measured at zero percent though its throughput is above zero.
-/
namespace RunLog

namespace Decimal

theorem exists_spells {m : Magnitude} (wf : m.WellFormed) : ∃ x, Spells x m :=
  ⟨Float.ofModel (Float.Model.pack (.finite .positive m.mantissa m.exponent wf.pos)), wf,
    pack_magnitude wf .positive⟩

/-- Between two doubles there is at least one step in the last place of the larger one. -/
theorem Magnitude.WellFormed.value_le_of_rank_lt {m n : Magnitude} (hm : m.WellFormed)
    (hn : n.WellFormed) (h : m.rank < n.rank) :
    m.value ≤ n.value * (1 - 2 ^ (-53 : ℤ)) := by
  have short : (m.mantissa : ℚ) + 1 ≤ 2 ^ 53 := by exact_mod_cast hm.short
  have short' : (n.mantissa : ℚ) ≤ 2 ^ 53 := by exact_mod_cast hn.short.le
  rw [value, value]
  rcases rank_cases hm hn h with lt | ⟨same, lt⟩
  · have long : 2 ^ 52 ≤ n.mantissa :=
      hn.long.resolve_right (lt_of_le_of_lt hm.least lt).ne'
    have long : (2 : ℚ) ^ 52 ≤ n.mantissa := by exact_mod_cast long
    have double : 2 * (2 : ℚ) ^ m.exponent ≤ 2 ^ n.exponent := by
      rw [← zpow_one_add₀ two_ne_zero]
      exact zpow_le_zpow_right₀ one_le_two (by omega)
    have pos : (0 : ℚ) < 2 ^ m.exponent := by positivity
    generalize (2 : ℚ) ^ m.exponent = u at *
    generalize (2 : ℚ) ^ n.exponent = w at *
    have widest : (2 : ℚ) ^ 53 - 1 = 2 ^ 53 * (1 - 2 ^ (-53 : ℤ)) := by norm_num
    have gap : (0 : ℚ) ≤ 1 - 2 ^ (-53 : ℤ) := by norm_num
    calc (m.mantissa : ℚ) * u ≤ (2 ^ 53 - 1) * u := by gcongr; linarith
      _ = 2 ^ 52 * (2 * u) * (1 - 2 ^ (-53 : ℤ)) := by rw [widest]; ring
      _ ≤ 2 ^ 52 * w * (1 - 2 ^ (-53 : ℤ)) := by gcongr
      _ ≤ n.mantissa * w * (1 - 2 ^ (-53 : ℤ)) := by gcongr; linarith
  · have next : (m.mantissa : ℚ) + 1 ≤ n.mantissa := by exact_mod_cast lt
    have pos : (0 : ℚ) < 2 ^ n.exponent := by positivity
    have gap : (n.mantissa : ℚ) * 2 ^ (-53 : ℤ) ≤ 1 := by
      rw [zpow_neg, ← div_eq_mul_inv, div_le_one (by positivity)]
      exact short'
    rw [same, mul_right_comm]
    refine mul_le_mul_of_nonneg_right ?_ pos.le
    linarith

theorem value_one : value 1 = 1 := by
  have own : magnitude 1 = ⟨2 ^ 52, -52, true⟩ := by decide +kernel
  rw [value, own, Magnitude.value]
  norm_num

theorem value_hundred : value 100 = 100 := by
  have own : magnitude 100 = ⟨100 * 2 ^ 46, -46, false⟩ := by decide +kernel
  rw [value, own, Magnitude.value]
  norm_num

theorem nearest_one : Nearest 1 1 :=
  value_one ▸ Nearest.self (by rfl) (by decide +kernel)

theorem nearest_hundred : Nearest 100 100 :=
  value_hundred ▸ Nearest.self (by rfl) (by decide +kernel)

theorem Nearest.unique {v : ℚ} {x y : Float} (hx : Nearest v x) (hy : Nearest v y)
    (nonzero : rank x ≠ 0) : x = y :=
  eq_of_rank_eq nonzero (le_antisymm (hx.rank_le hy le_rfl) (hy.rank_le hx le_rfl))

end Decimal

namespace Closeness
open Decimal

section Percent

variable {t best : Float}

theorem quotient_nearest (ht : t.isFinite = true) (hb : best.isFinite = true) (pt : 0 < t)
    (pb : 0 < best) (le : value t ≤ value best) :
    Nearest (value t / value best) (t / best) := by
  refine nearest_div ht hb pt pb ?_
  calc value t / value best ≤ 1 := (div_le_one (value_pos hb pb)).mpr le
    _ = 2 ^ (0 : ℤ) := rfl
    _ < 2 ^ (1023 : ℤ) := zpow_lt_zpow_right₀ one_lt_two (by norm_num)

theorem value_quotient_le (ht : t.isFinite = true) (hb : best.isFinite = true) (pt : 0 < t)
    (pb : 0 < best) (le : value t ≤ value best) : value (t / best) ≤ 1 := by
  have atMost := (quotient_nearest ht hb pt pb le).value_le nearest_one
    ((div_le_one (value_pos hb pb)).mpr le)
  rwa [value_one] at atMost

/-- The quotient of any other throughput is rounded to a double below one. -/
theorem value_quotient_lt (ht : t.isFinite = true) (hb : best.isFinite = true) (pt : 0 < t)
    (pb : 0 < best) (lt : value t < value best) : value (t / best) ≤ 1 - 2 ^ (-53 : ℤ) := by
  have first := spells_of_pos ht pt
  have second := spells_of_pos hb pb
  have step := first.wf.value_le_of_rank_lt second.wf
    (not_le.mp fun le => absurd (second.wf.value_le_of_rank_le first.wf le) (not_le.mpr lt))
  let last : Magnitude := ⟨2 ^ 53 - 1, -53, false⟩
  have wf : last.WellFormed := by constructor <;> simp [last]
  have exact : last.value = 1 - 2 ^ (-53 : ℤ) := by
    simp only [last, Magnitude.value]
    norm_num
  obtain ⟨x, hx⟩ := exists_spells wf
  have below : value t / value best ≤ last.value := by
    rw [exact, div_le_iff₀ (value_pos hb pb), mul_comm]
    exact step
  have atMost := (quotient_nearest ht hb pt pb lt.le).value_le
    (.around hx last.surrounds_value) below
  rwa [hx.value, exact] at atMost

theorem percent_nearest (ht : t.isFinite = true) (hb : best.isFinite = true) (pt : 0 < t)
    (pb : 0 < best) (le : value t ≤ value best) :
    Nearest (value (t / best) * 100) (percent t best) := by
  have quotient := quotient_nearest ht hb pt pb le
  rcases le_or_gt (value t / value best) (2 ^ (-1075 : ℤ)) with small | large
  · have zero := quotient.eq_zero small
    rw [percent, zero, value_zero]
    exact .zero (by rw [zero_mul]; positivity) (by decide +kernel)
  · obtain ⟨finite, pos⟩ := quotient.finite_pos large
    have spelled := spells_of_pos finite pos
    have above : 2 ^ (-1075 : ℤ) < value (t / best) :=
      spelled.wf.half_lt (magnitude (t / best)).surrounds_value
    have positive := value_pos finite pos
    refine nearest_mul_hundred finite pos (by linarith) ?_
    calc value (t / best) * 100 ≤ 1 * 100 := by gcongr; exact value_quotient_le ht hb pt pb le
      _ < 2 ^ (7 : ℤ) := by norm_num
      _ < 2 ^ (1023 : ℤ) := zpow_lt_zpow_right₀ one_lt_two (by norm_num)

theorem percent_nonneg (ht : t.isFinite = true) (hb : best.isFinite = true) (pt : 0 < t)
    (pb : 0 < best) (le : value t ≤ value best) : 0 ≤ percent t best := by
  have zero : Nearest 0 0 := .zero (by positivity) rfl
  exact zero.le (percent_nearest ht hb pt pb le)
    (mul_nonneg (mul_nonneg (Nat.cast_nonneg _) (by positivity)) (by norm_num))

theorem percent_le_hundred (ht : t.isFinite = true) (hb : best.isFinite = true) (pt : 0 < t)
    (pb : 0 < best) (le : value t ≤ value best) : percent t best ≤ 100 := by
  have atMost := value_quotient_le ht hb pt pb le
  exact (percent_nearest ht hb pt pb le).le nearest_hundred (by linarith)

/-- Beside a best throughput that is too large, a throughput comes to zero percent. -/
theorem percent_pos_iff (ht : t.isFinite = true) (hb : best.isFinite = true) (pt : 0 < t)
    (pb : 0 < best) (le : value t ≤ value best) :
    0 < percent t best ↔ value best < 2 ^ 1075 * value t := by
  have quotient := quotient_nearest ht hb pt pb le
  have scale : (2 : ℚ) ^ (-1075 : ℤ) = (2 ^ 1075)⁻¹ := by
    rw [zpow_neg]
    rfl
  have ratio : 2 ^ (-1075 : ℤ) < value t / value best ↔ value best < 2 ^ 1075 * value t := by
    rw [lt_div_iff₀ (value_pos hb pb), scale, inv_mul_eq_div, div_lt_iff₀' (by positivity)]
  rw [(percent_nearest ht hb pt pb le).pos_iff, ← ratio]
  constructor
  · intro large
    by_contra small
    rw [quotient.eq_zero (not_lt.mp small), value_zero, zero_mul] at large
    exact absurd large (not_lt.mpr (by positivity))
  · intro large
    obtain ⟨finite, pos⟩ := quotient.finite_pos large
    have above : 2 ^ (-1075 : ℤ) < value (t / best) :=
      (spells_of_pos finite pos).wf.half_lt (magnitude (t / best)).surrounds_value
    have positive := value_pos finite pos
    linarith

/-- A hundred percent is for the best throughput alone. -/
theorem percent_eq_hundred_iff (ht : t.isFinite = true) (hb : best.isFinite = true) (pt : 0 < t)
    (pb : 0 < best) (le : value t ≤ value best) :
    percent t best = 100 ↔ t = best := by
  rw [← value_inj ht hb pt pb]
  constructor
  · intro hundred
    by_contra ne
    have below := value_quotient_lt ht hb pt pb (lt_of_le_of_ne le ne)
    let last : Magnitude := ⟨100 * 2 ^ 46 - 1, -46, false⟩
    have wf : last.WellFormed := by constructor <;> simp [last]
    have around : last.Surrounds ((1 - 2 ^ (-53 : ℤ)) * 100) := by
      constructor <;> simp only [last, Magnitude.lower, Magnitude.upper] <;> norm_num
    obtain ⟨x, hx⟩ := exists_spells wf
    have atMost := (percent_nearest ht hb pt pb le).rank_le (.around hx around) (by linarith)
    rw [hundred, hx.rank] at atMost
    exact absurd atMost (by decide +kernel)
  · intro same
    have one : t / best = 1 := by
      have quotient := quotient_nearest ht hb pt pb le
      rw [same, div_self (value_pos hb pb).ne'] at quotient
      exact (nearest_one.unique quotient (by decide +kernel)).symm
    have product := percent_nearest ht hb pt pb le
    rw [one, value_one, one_mul] at product
    exact (nearest_hundred.unique product (by decide +kernel)).symm

theorem percent_mono {s : Float} (ht : t.isFinite = true) (hs : s.isFinite = true)
    (hb : best.isFinite = true) (pt : 0 < t) (ps : 0 < s) (pb : 0 < best)
    (le : value t ≤ value s) (le' : value s ≤ value best) :
    percent t best ≤ percent s best := by
  have first := quotient_nearest ht hb pt pb (le.trans le')
  have second := quotient_nearest hs hb ps pb le'
  have quotients := first.value_le second (div_le_div_of_nonneg_right le (value_pos hb pb).le)
  exact (percent_nearest ht hb pt pb (le.trans le')).le (percent_nearest hs hb ps pb le')
    (by linarith)

end Percent

theorem AllPositive.of_complete {runs : List Record}
    (built : ∀ r ∈ runs, ∃ d : Draft, d.complete = .ok r) : AllPositive runs := by
  intro r hr
  obtain ⟨d, complete⟩ := built r hr
  exact Draft.completeThroughput_ok (Draft.complete_ok complete).throughput

/-- After annotating, every run has a value between zero and a hundred percent. It is a
hundred for the runs with the greatest throughput of their configuration and for no others,
and a larger throughput of the same configuration has a value that is not smaller. The value
is above zero unless the greatest throughput is `2 ^ 1075` times the run's own, or more. -/
theorem annotate_range (runs : List Record) (h : AllPositive runs) :
    ∀ r ∈ annotate runs, ∃ v best,
      r.closeToMax = some v ∧
      (∃ q ∈ annotate runs,
        Configuration.ofRecord q = Configuration.ofRecord r ∧ q.throughput = best) ∧
      (∀ q ∈ annotate runs,
        Configuration.ofRecord q = Configuration.ofRecord r → q.throughput ≤ best) ∧
      0 ≤ v ∧ v ≤ 100 ∧
      (0 < v ↔ value best < 2 ^ 1075 * value r.throughput) ∧
      (v = 100 ↔ r.throughput = best) ∧
      ∀ q ∈ annotate runs, Configuration.ofRecord q = Configuration.ofRecord r →
        r.throughput ≤ q.throughput → ∃ w, q.closeToMax = some w ∧ v ≤ w := by
  simp only [annotate_eq_map, List.mem_map, forall_exists_index, and_imp,
    forall_apply_eq_imp_iff₂, exists_exists_and_eq_and]
  intro r hr
  obtain ⟨⟨p, hp, attained⟩, bound⟩ := peak_spec (h.comparable r) (comparable_ne_nil hr)
  obtain ⟨hp, same⟩ := List.mem_filter.mp hp
  obtain ⟨finite, pos⟩ := h r hr
  obtain ⟨finite', pos'⟩ := attained ▸ h p hp
  have atMost (q : Record) (hq : q ∈ runs)
      (alike : Configuration.ofRecord q = Configuration.ofRecord r) :
      q.throughput ≤ peak (comparable runs r) :=
    (le_iff_rank (isNaN_of_isFinite (h q hq).1) (isNaN_of_isFinite finite')).mpr
      (bound q (List.mem_filter.mpr ⟨hq, decide_eq_true alike⟩))
  have below (q : Record) (hq : q ∈ runs)
      (alike : Configuration.ofRecord q = Configuration.ofRecord r) :
      value q.throughput ≤ value (peak (comparable runs r)) :=
    (value_le_iff (h q hq).1 finite' (h q hq).2 pos').mp (atMost q hq alike)
  have own := below r hr rfl
  refine ⟨_, peak (comparable runs r), rfl, ⟨p, hp, of_decide_eq_true same, attained⟩, atMost,
    percent_nonneg finite finite' pos pos' own, percent_le_hundred finite finite' pos pos' own,
    percent_pos_iff finite finite' pos pos' own, percent_eq_hundred_iff finite finite' pos pos' own,
    ?_⟩
  intro q hq alike le
  have group : comparable runs q = comparable runs r :=
    List.filter_congr fun other _ => congrArg (fun k => decide (_ = k)) alike
  refine ⟨_, rfl, ?_⟩
  rw [group]
  exact percent_mono finite (h q hq).1 finite' pos (h q hq).2 pos'
    ((value_le_iff finite (h q hq).1 pos (h q hq).2).mp le) (below q hq alike)

def microDraft (throughput : Float) : Draft :=
  { Draft.empty with
    kind := some .micro
    variant := some (Variant.read "treap(s)".toList)
    threads := some 2
    throughput := some throughput
    workloadMix := some 50
    initialSize := some 10
    expectedFinalSize := some 12 }

/-- Two runs of one configuration. The throughput of the first is the least double, that of
the second is near the greatest. -/
def farApart : List Record :=
  [Float.ofBits 1, Float.ofBits 0x7fe1ccf385ebc8a0].filterMap fun throughput =>
    (microDraft throughput).complete.toOption

theorem farApart_complete : ∀ r ∈ farApart, ∃ d : Draft, d.complete = .ok r := by
  intro r hr
  obtain ⟨throughput, -, complete⟩ := List.mem_filterMap.mp hr
  refine ⟨microDraft throughput, ?_⟩
  cases h : (microDraft throughput).complete with
  | error e => simp [h, Except.toOption] at complete
  | ok built => simpa [h, Except.toOption] using complete

theorem annotate_range_farApart :
    AllPositive farApart ∧ ∀ r ∈ annotate farApart, ∃ v best,
      r.closeToMax = some v ∧ (∃ q ∈ annotate farApart, q.throughput = best) ∧ 0 ≤ v ∧ v ≤ 100 ∧
      (0 < v ↔ value best < 2 ^ 1075 * value r.throughput) ∧ (v = 100 ↔ r.throughput = best) := by
  have positive := AllPositive.of_complete farApart_complete
  refine ⟨positive, fun r hr => ?_⟩
  obtain ⟨v, best, known, ⟨q, hq, -, attained⟩, -, nonneg, atMost, above, top, -⟩ :=
    annotate_range farApart positive r hr
  exact ⟨v, best, known, ⟨q, hq, attained⟩, nonneg, atMost, above, top⟩

/-- The first of them is measured at zero percent. -/
theorem farApart_zero :
    (∀ r ∈ farApart, ∃ d : Draft, d.complete = .ok r) ∧
      (annotate farApart).map Record.closeToMax = [some 0, some 100] ∧
      ¬ ∀ r ∈ annotate farApart, ∃ v, r.closeToMax = some v ∧ 0 < v ∧ v ≤ 100 := by
  have values : (annotate farApart).map Record.closeToMax = [some 0, some 100] := by
    decide +kernel
  refine ⟨farApart_complete, values, fun all => ?_⟩
  have found : some 0 ∈ (annotate farApart).map Record.closeToMax := by
    rw [values]
    exact List.mem_cons_self
  obtain ⟨r, hr, zero⟩ := List.mem_map.mp found
  obtain ⟨v, known, pos, -⟩ := all r hr
  rw [zero] at known
  cases known
  exact absurd pos (by decide +kernel)

end Closeness
end RunLog
