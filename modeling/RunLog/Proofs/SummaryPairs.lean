import Mathlib.Tactic.SplitIfs
import RunLog.Metric

/-!
# When the pairs of a summary are read

The pieces between commas are looked at in order. A blank piece is skipped, and
the first other piece without an equals sign is at fault; nothing behind it
matters. Without such a piece the summary is read.
-/
namespace RunLog

theorem Text.cut?_cons (mark c : Char) (t : Text) :
    Text.cut? mark (c :: t) =
      if c = mark then some ([], t)
      else (Text.cut? mark t).map fun cut => (c :: cut.1, cut.2) := by
  unfold Text.cut?
  by_cases h : c = mark
  · simp [h]
  · simp only [List.dropWhile_cons, List.takeWhile_cons, bne_iff_ne, ne_eq, h, not_false_eq_true,
      if_true, if_false]
    cases t.dropWhile (· != mark) <;> rfl

theorem Text.cut?_eq_none_iff {mark : Char} {t : Text} :
    Text.cut? mark t = none ↔ mark ∉ t := by
  induction t with
  | nil => simp [Text.cut?]
  | cons c t ih =>
      rw [Text.cut?_cons]
      by_cases h : c = mark
      · simp [h]
      · simp [h, ih, Ne.symm h]

theorem Text.cut?_eq_some {mark : Char} {t before behind : Text}
    (h : Text.cut? mark t = some (before, behind)) :
    t = before ++ mark :: behind ∧ mark ∉ before := by
  induction t generalizing before with
  | nil => cases h
  | cons c t ih =>
      rw [Text.cut?_cons] at h
      split_ifs at h with hc
      · cases h
        exact ⟨by rw [hc, List.nil_append], List.not_mem_nil⟩
      · obtain ⟨cut, found, same⟩ := Option.map_eq_some_iff.mp h
        cases same
        obtain ⟨whole, absent⟩ := ih found
        exact ⟨by rw [List.cons_append, ← whole], by simp [Ne.symm hc, absent]⟩

namespace Metrics

/-- Neither blank nor a pair, when blanks around it are dropped already. -/
def isBadPair (pair : Text) : Bool :=
  decide (pair ≠ [] ∧ '=' ∉ pair)

/-- The first piece of a summary that is neither blank nor a pair. -/
def badPair? (t : Text) : Option Text :=
  ((Text.pieces ',' t).map Text.trim).find? isBadPair

theorem readPair_bad (metrics : Metrics) {piece : Text}
    (h : isBadPair (Text.trim piece) = true) :
    readPair metrics piece = .error ⟨Text.trim piece⟩ := by
  obtain ⟨hne, hm⟩ := of_decide_eq_true h
  have cut := Text.cut?_eq_none_iff.mpr hm
  simp only [readPair, List.isEmpty_iff, hne, if_false, cut]

theorem readPair_good (metrics : Metrics) {piece : Text}
    (h : isBadPair (Text.trim piece) = false) :
    ∃ more, readPair metrics piece = .ok more := by
  have hgood : ¬(Text.trim piece ≠ [] ∧ '=' ∉ Text.trim piece) := of_decide_eq_false h
  unfold readPair
  by_cases he : Text.trim piece = []
  · exact ⟨metrics, by simp [he]⟩
  · cases hc : Text.cut? '=' (Text.trim piece) with
    | none => exact absurd ⟨he, Text.cut?_eq_none_iff.mp hc⟩ hgood
    | some cut =>
        refine ⟨metrics.insert (Text.trim cut.1) (Metric.read cut.2), ?_⟩
        simp only [List.isEmpty_iff, he, if_false, hc]

theorem foldlM_readPair (metrics : Metrics) (pieces : List Text) :
    match (pieces.map Text.trim).find? isBadPair with
    | some pair => pieces.foldlM readPair metrics = .error ⟨pair⟩
    | none => ∃ all, pieces.foldlM readPair metrics = .ok all := by
  induction pieces generalizing metrics with
  | nil => exact ⟨metrics, rfl⟩
  | cons piece rest ih =>
      rw [List.map_cons, List.find?_cons]
      cases hb : isBadPair (Text.trim piece) with
      | true =>
          simp only [List.foldlM_cons, readPair_bad metrics hb]
          rfl
      | false =>
          obtain ⟨more, hmore⟩ := readPair_good metrics hb
          simp only [List.foldlM_cons, hmore]
          exact ih more

theorem read_eq_error {t pair : Text} (h : badPair? t = some pair) :
    Metrics.read t = .error ⟨pair⟩ := by
  have fold := foldlM_readPair ∅ (Text.pieces ',' t)
  rw [← badPair?, h] at fold
  exact fold

theorem read_eq_ok {t : Text} (h : badPair? t = none) :
    ∃ metrics, Metrics.read t = .ok metrics := by
  have fold := foldlM_readPair ∅ (Text.pieces ',' t)
  rw [← badPair?, h] at fold
  exact fold

end Metrics

end RunLog
