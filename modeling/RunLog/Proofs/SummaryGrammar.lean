import Mathlib
import RunLog.Proofs.SummaryEntries

/-!
# The grammar of a summary

A summary is read by its pieces between commas, and those of two summaries with a
comma between them are the pieces of the first and then those of the second. What a
piece adds does not depend on the pairs before it, except that it may hide one of
them: reading on over a dictionary gives what is read alone, laid over that
dictionary (`foldlM_overlay`). So a summary that is put together from two is read
part by part, and the pairs of the second part lie over those of the first.
-/
namespace RunLog

namespace Dictionary
variable {α : Type}

/-- Both dictionaries in one; where they answer the same key, the second one counts. -/
def overlay (d e : Dictionary α) : Dictionary α :=
  e.entries.foldr (fun entry below => below.insert entry.1 entry.2) d

@[simp] theorem overlay_empty (d : Dictionary α) : d.overlay empty = d := rfl

@[simp] theorem get?_overlay (d e : Dictionary α) (key : Text) :
    (d.overlay e).get? key = (e.get? key).or (d.get? key) := by
  rw [overlay, get?, get?]
  induction e.entries with
  | nil => rfl
  | cons entry rest ih =>
      rw [List.foldr_cons, ← get?, get?_insert, lookup_cons]
      split_ifs with hk
      · rfl
      · exact ih

theorem overlay_insert (d e : Dictionary α) (key : Text) (value : α) :
    d.overlay (e.insert key value) = (d.overlay e).insert key value := by
  refine ext_get? fun k => ?_
  simp only [get?_overlay, get?_insert]
  split_ifs with hk
  · exact Option.some_or
  · rfl

end Dictionary

namespace Metrics

/-- Neither blank nor a pair: some character is no blank, and none is an equals sign. -/
def atFault (piece : Text) : Bool :=
  decide ((∃ c ∈ piece, Text.isBlank c = false) ∧ '=' ∉ piece)

/-- The piece is a pair: what stands before its first equals sign is the key, with blanks
around it or not, and `raw` is what stands behind. -/
def Writes (key raw piece : Text) : Prop :=
  ∃ before, piece = before ++ '=' :: raw ∧ '=' ∉ before ∧ Text.trim before = key

/-- Of the pieces that are pairs with this key, the last one has `raw` behind its equals sign. -/
def LastWrites (pieces : List Text) (key raw : Text) : Prop :=
  ∃ front piece behind, pieces = front ++ piece :: behind ∧ Writes key raw piece ∧
    ∀ later ∈ behind, ∀ other, ¬ Writes key other later

variable {t key : Text}

theorem isBadPair_trim (piece : Text) : isBadPair (Text.trim piece) = atFault piece := by
  have solid : Text.isBlank '=' = false := by decide
  simp only [isBadPair, atFault, Text.mem_trim_iff solid, ne_eq,
    Text.trim_eq_nil_iff, not_forall, Bool.not_eq_true, exists_prop]

theorem badPair?_eq (t : Text) :
    badPair? t = ((t.splitOn ',').find? atFault).map Text.trim := by
  have same : isBadPair ∘ Text.trim = atFault := funext isBadPair_trim
  rw [badPair?, Text.pieces_eq_splitOn, List.find?_map, same]

/-- What stands behind the equals sign of a pair with the key. -/
def raw? (key piece : Text) : Option Text :=
  (Text.cut? '=' piece).bind fun cut => if key = Text.trim cut.1 then some cut.2 else none

theorem raw?_eq_some_iff {raw piece : Text} :
    raw? key piece = some raw ↔ Writes key raw piece := by
  rw [raw?, Option.bind_eq_some_iff]
  constructor
  · rintro ⟨⟨before, behind⟩, found, kept⟩
    obtain ⟨same, kept⟩ := Option.ite_none_right_eq_some.mp kept
    cases kept
    obtain ⟨whole, absent⟩ := Text.cut?_eq_some found
    exact ⟨before, whole, absent, same.symm⟩
  · rintro ⟨before, rfl, absent, rfl⟩
    exact ⟨(before, raw), Text.cut?_append absent raw, if_pos rfl⟩

theorem lookup_pairs (key : Text) (pieces : List Text) :
    (pieces.filterMap pair?).lookup key = (pieces.findSome? (raw? key)).map Text.trim := by
  induction pieces with
  | nil => rfl
  | cons piece rest ih =>
      rw [List.filterMap_cons, List.findSome?_cons, pair?, raw?]
      cases Text.cut? '=' piece with
      | none => exact ih
      | some cut =>
          simp only [Option.map_some, Option.bind_some, Prod.map, Dictionary.lookup_cons, ih]
          split_ifs with hk <;> rfl

theorem findSome?_reverse_raw? {pieces : List Text} {raw : Text} :
    pieces.reverse.findSome? (raw? key) = some raw ↔ LastWrites pieces key raw := by
  rw [List.findSome?_eq_some_iff]
  constructor
  · rintro ⟨behind, piece, front, whole, writes, silent⟩
    refine ⟨front.reverse, piece, behind.reverse, ?_, raw?_eq_some_iff.mp writes, ?_⟩
    · rw [List.reverse_eq_iff.mp whole]
      simp
    · intro later hlater other hother
      have nothing := silent later (List.mem_reverse.mp hlater)
      rw [raw?_eq_some_iff.mpr hother] at nothing
      cases nothing
  · rintro ⟨front, piece, behind, rfl, writes, silent⟩
    refine ⟨behind.reverse, piece, front.reverse, by simp, raw?_eq_some_iff.mpr writes, ?_⟩
    intro later hlater
    rw [Option.eq_none_iff_forall_ne_some]
    exact fun other found => silent later (List.mem_reverse.mp hlater) other
      (raw?_eq_some_iff.mp found)

/-- What is read for a key is what stands behind the equals sign of the last pair with it. -/
theorem get?_read_iff {metrics : Metrics} (h : Metrics.read t = .ok metrics) (value : Metric) :
    metrics.get? key = some value ↔
      ∃ raw, LastWrites (t.splitOn ',') key raw ∧ Metric.read raw = value := by
  rw [get?_read h, written?, Text.pieces_eq_splitOn, ← List.filterMap_reverse, lookup_pairs,
    Option.map_map, Option.map_eq_some_iff]
  refine exists_congr fun raw => ?_
  rw [findSome?_reverse_raw?, Function.comp_apply, Metric.read_trim]

/-- A piece adds the same to a dictionary whether or not that lies over another one. -/
theorem readPair_overlay (lower metrics : Metrics) (piece : Text) :
    readPair (lower.overlay metrics) piece = (readPair metrics piece).map lower.overlay := by
  unfold readPair
  simp only
  split_ifs
  · rfl
  · split
    · rfl
    · exact congrArg Except.ok (Dictionary.overlay_insert lower metrics _ _).symm

theorem foldlM_overlay (lower metrics : Metrics) (pieces : List Text) :
    pieces.foldlM readPair (lower.overlay metrics) =
      (pieces.foldlM readPair metrics).map lower.overlay := by
  induction pieces generalizing metrics with
  | nil => rfl
  | cons piece rest ih =>
      rw [List.foldlM_cons, List.foldlM_cons, readPair_overlay]
      cases readPair metrics piece with
      | error fault => rfl
      | ok more => exact ih more

/-- A summary in two parts is read part by part. -/
theorem read_append (a b : Text) :
    Metrics.read (a ++ ',' :: b) = do
      let first ← Metrics.read a
      let second ← Metrics.read b
      return first.overlay second := by
  simp only [Metrics.read, Text.pieces_eq_splitOn, List.splitOn_append_cons_self,
    List.foldlM_append]
  cases (a.splitOn ',').foldlM readPair Dictionary.empty with
  | error fault => rfl
  | ok first =>
      have second := foldlM_overlay first Dictionary.empty (b.splitOn ',')
      rw [Dictionary.overlay_empty] at second
      change (b.splitOn ',').foldlM readPair first = _
      rw [second]
      cases (b.splitOn ',').foldlM readPair Dictionary.empty <;> rfl

/-- A summary is at fault exactly if one of its pieces is, and tells the first of these without
the blanks around it. Otherwise it holds for each key what stands behind the equals sign of the
last pair with this key, and holds no other key. Two summaries with a comma between them are read
one after the other: the fault of the first comes before that of the second, and the pairs of the
second lie over those of the first. -/
theorem read_by_pieces :
    (∀ t : Text,
      (∀ fault, Metrics.read t = .error fault ↔
        ((t.splitOn ',').find? atFault).map Text.trim = some fault.pair) ∧
      ∀ metrics, Metrics.read t = .ok metrics ↔
        (∀ piece ∈ t.splitOn ',', atFault piece = false) ∧
          ∀ key value, metrics.get? key = some value ↔
            ∃ raw, LastWrites (t.splitOn ',') key raw ∧ Metric.read raw = value) ∧
    ∀ a b : Text, Metrics.read (a ++ ',' :: b) = do
      let first ← Metrics.read a
      let second ← Metrics.read b
      return first.overlay second := by
  refine ⟨fun t => ⟨fun fault => ?_, fun metrics => ?_⟩, read_append⟩
  · rw [← badPair?_eq]
    cases hb : badPair? t with
    | none =>
        obtain ⟨metrics, hread⟩ := read_eq_ok hb
        rw [hread]
        exact ⟨nofun, nofun⟩
    | some pair =>
        rw [read_eq_error hb]
        obtain ⟨other⟩ := fault
        simp
  · have sound : (∀ piece ∈ t.splitOn ',', atFault piece = false) ↔ badPair? t = none := by
      rw [badPair?_eq, Option.map_eq_none_iff, List.find?_eq_none]
      simp
    rw [sound]
    constructor
    · intro hread
      refine ⟨?_, fun key value => get?_read_iff hread value⟩
      by_contra bad
      obtain ⟨pair, hpair⟩ := Option.ne_none_iff_exists'.mp bad
      rw [read_eq_error hpair] at hread
      cases hread
    · rintro ⟨good, answers⟩
      obtain ⟨other, hread⟩ := read_eq_ok good
      rw [hread]
      refine congrArg Except.ok (Dictionary.ext_get? fun key => Option.ext fun value => ?_)
      rw [get?_read_iff hread, answers]

end Metrics
end RunLog
