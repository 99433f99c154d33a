import Mathlib
import RunLog.Proofs.Lookups
import RunLog.Proofs.SummaryPairs
import RunLog.Proofs.WrittenTexts

/-!
# What a summary says about a key

A pair is cut at its first equals sign, and the blanks around both parts do not
matter, nor those around the pair. Once a summary is read, what it holds for a
key is the value that the last pair with this key writes (`Metrics.get?_read`).
-/
namespace RunLog

namespace Text
variable {mark : Char}

theorem cut?_append_of_notMem {a : Text} (h : mark ∉ a) (t : Text) :
    cut? mark (a ++ t) = (cut? mark t).map fun cut => (a ++ cut.1, cut.2) := by
  cases hc : cut? mark t with
  | none =>
      have absent : mark ∉ a ++ t := fun hmem =>
        (List.mem_append.mp hmem).elim h (cut?_eq_none_iff.mp hc)
      rw [cut?_eq_none_iff.mpr absent, Option.map_none]
  | some cut =>
      obtain ⟨whole, absent⟩ := cut?_eq_some hc
      have front : mark ∉ a ++ cut.1 := fun hmem => (List.mem_append.mp hmem).elim h absent
      rw [whole, ← List.append_assoc, cut?_append front, Option.map_some]

theorem cut?_append_behind {b : Text} (h : mark ∉ b) (t : Text) :
    cut? mark (t ++ b) = (cut? mark t).map fun cut => (cut.1, cut.2 ++ b) := by
  cases hc : cut? mark t with
  | none =>
      have absent : mark ∉ t ++ b := fun hmem =>
        (List.mem_append.mp hmem).elim (cut?_eq_none_iff.mp hc) h
      rw [cut?_eq_none_iff.mpr absent, Option.map_none]
  | some cut =>
      obtain ⟨whole, absent⟩ := cut?_eq_some hc
      rw [whole, List.append_assoc, List.cons_append, cut?_append absent, Option.map_some]

theorem cut?_trim (solid : isBlank mark = false) (t : Text) :
    (cut? mark (trim t)).map (Prod.map trim trim) = (cut? mark t).map (Prod.map trim trim) := by
  obtain ⟨a, b, whole, ha, hb⟩ := exists_trim t
  have front : mark ∉ a := fun hmem => Bool.noConfusion (solid.symm.trans (ha mark hmem))
  have behind : mark ∉ b := fun hmem => Bool.noConfusion (solid.symm.trans (hb mark hmem))
  conv_rhs => rw [whole, cut?_append_behind behind, cut?_append_of_notMem front]
  rw [Option.map_map, Option.map_map]
  refine Option.map_congr fun cut _ => ?_
  simp only [Function.comp_apply, Prod.map, trim_blanks_append ha, trim_append_blanks hb]

end Text

namespace Metric

theorem read_trim (raw : Text) : read (Text.trim raw) = read raw := by
  rw [read, Text.trim_trim, read]

end Metric

namespace Metrics

/-- The key and the value that a piece writes, without the blanks around them. -/
def pair? (piece : Text) : Option (Text × Text) :=
  (Text.cut? '=' piece).map (Prod.map Text.trim Text.trim)

/-- What the last pair with the key writes as its value. -/
def written? (key t : Text) : Option Text :=
  ((Text.pieces ',' t).filterMap pair?).reverse.lookup key

theorem readPair_eq (metrics : Metrics) {piece : Text} (h : isBadPair (Text.trim piece) = false) :
    readPair metrics piece = .ok (((pair? piece).map fun pair =>
      metrics.insert pair.1 (Metric.read pair.2)).getD metrics) := by
  rw [pair?, ← Text.cut?_trim rfl]
  cases hc : Text.cut? '=' (Text.trim piece) with
  | none =>
      have good : ¬(Text.trim piece ≠ [] ∧ '=' ∉ Text.trim piece) := of_decide_eq_false h
      have blank : Text.trim piece = [] := by
        by_contra some
        exact good ⟨some, Text.cut?_eq_none_iff.mp hc⟩
      simp [readPair, blank]
  | some cut =>
      have some : (Text.trim piece).isEmpty = false := by
        rw [(Text.cut?_eq_some hc).1]
        cases cut.1 <;> rfl
      simp only [readPair, some, hc, Option.map_some, Option.getD_some, Prod.map,
        Metric.read_trim, Bool.false_eq_true, if_false]

theorem get?_foldlM {pieces : List Text} {metrics all : Metrics}
    (h : pieces.foldlM readPair metrics = .ok all) (key : Text) :
    all.get? key = (((pieces.filterMap pair?).reverse.lookup key).map Metric.read).or
      (metrics.get? key) := by
  induction pieces generalizing metrics with
  | nil =>
      cases h
      rfl
  | cons piece rest ih =>
      have good : isBadPair (Text.trim piece) = false := by
        by_contra bad
        rw [List.foldlM_cons, readPair_bad metrics (Bool.not_eq_false _ ▸ bad)] at h
        cases h
      rw [List.foldlM_cons, readPair_eq metrics good] at h
      rw [ih h, List.filterMap_cons]
      cases pair? piece with
      | none => rfl
      | some pair =>
          have last : (pair :: rest.filterMap pair?).reverse.lookup key =
              ((rest.filterMap pair?).reverse.lookup key).or
                (if key = pair.1 then some pair.2 else none) := by
            rw [List.reverse_cons, List.lookup_append, Dictionary.lookup_cons]
            rfl
          simp only [Option.map_some, Option.getD_some, Dictionary.get?_insert, last]
          cases (rest.filterMap pair?).reverse.lookup key <;> by_cases hk : key = pair.1 <;>
            simp [hk]

/-- What is read for a key is what the last pair with this key writes. -/
theorem get?_read {t : Text} {metrics : Metrics} (h : Metrics.read t = .ok metrics) (key : Text) :
    metrics.get? key = (written? key t).map Metric.read := by
  rw [get?_foldlM h key]
  exact Option.or_none

theorem trim_written? {key t value : Text} (h : written? key t = some value) :
    Text.trim value = value := by
  obtain ⟨front, behind, whole, -⟩ := List.lookup_eq_some_iff.mp h
  have listed : (key, value) ∈ ((Text.pieces ',' t).filterMap pair?).reverse := by simp [whole]
  obtain ⟨piece, -, hpiece⟩ := List.mem_filterMap.mp (List.mem_reverse.mp listed)
  obtain ⟨cut, -, same⟩ := Option.map_eq_some_iff.mp hpiece
  have trimmed : Text.trim cut.2 = value := congrArg Prod.snd same
  rw [← trimmed, Text.trim_trim]

end Metrics

end RunLog
