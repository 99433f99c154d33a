import Mathlib
import RunLog.Proofs.FileLoading
import RunLog.Proofs.SummaryPairs
import RunLog.Text.Search

/-!
# Reading back what was put together

Lines with line feeds behind them, words with blanks between them and pieces
with commas between them are found again, as long as no part holds what
separates the parts. Trimming leaves a text alone exactly if no blank stands at
its ends.
-/
namespace RunLog

namespace Text

variable {t w rest : Text}

section Trimming

theorem dropWhile_blank_eq_self_iff (t : Text) :
    t.dropWhile isBlank = t ↔ ∀ c ∈ t.head?, isBlank c = false := by
  cases t with
  | nil => simp
  | cons c t =>
      rw [List.dropWhile_cons]
      by_cases hc : isBlank c = true
      · have shorter := (List.dropWhile_sublist isBlank (l := t)).length_le
        have moved : t.dropWhile isBlank ≠ c :: t := fun heq => by
          rw [heq, List.length_cons] at shorter
          omega
        simp [hc, moved]
      · simp [hc]

theorem trimEnd_sublist (t : Text) : List.Sublist (trimEnd t) t := by
  have shorter := (List.dropWhile_sublist isBlank (l := t.reverse)).reverse
  rwa [List.reverse_reverse] at shorter

theorem trim_subset (t : Text) : trim t ⊆ t :=
  ((trimEnd_sublist _).trans (List.dropWhile_sublist _)).subset

theorem trimEnd_eq_self_iff : trimEnd t = t ↔ ∀ c ∈ t.getLast?, isBlank c = false := by
  rw [trimEnd, List.reverse_eq_iff, dropWhile_blank_eq_self_iff, List.head?_reverse]

theorem trim_eq_self_iff :
    trim t = t ↔ (∀ c ∈ t.head?, isBlank c = false) ∧ ∀ c ∈ t.getLast?, isBlank c = false := by
  rw [← dropWhile_blank_eq_self_iff, ← trimEnd_eq_self_iff]
  constructor
  · intro h
    have inner : List.Sublist t (trimStart t) := by
      have shorter := trimEnd_sublist (trimStart t)
      rwa [← trim, h] at shorter
    have start : trimStart t = t := (List.dropWhile_sublist isBlank).antisymm inner
    rw [trim, start] at h
    exact ⟨start, h⟩
  · rintro ⟨start, finish⟩
    rw [trim, trimStart, start, finish]

theorem trim_of_ends {c d : Char} (hc : t.head? = some c) (hd : t.getLast? = some d)
    (first : isBlank c = false) (last : isBlank d = false) : trim t = t := by
  refine trim_eq_self_iff.mpr ⟨fun e he => ?_, fun e he => ?_⟩
  · obtain rfl := Option.some.inj (hc.symm.trans he)
    exact first
  · obtain rfl := Option.some.inj (hd.symm.trans he)
    exact last

theorem trim_append {a b : Text} (hne : a ≠ []) (ha : trim a = a) (hb : trim b = b) :
    trim (a ++ b) = a ++ b := by
  obtain ⟨c, a, rfl⟩ := List.exists_cons_of_ne_nil hne
  obtain ⟨first, last⟩ := trim_eq_self_iff.mp ha
  refine trim_eq_self_iff.mpr ⟨first, fun d hd => ?_⟩
  rw [List.getLast?_append] at hd
  rcases Option.or_eq_some_iff.mp hd with hb' | ⟨-, ha'⟩
  · exact (trim_eq_self_iff.mp hb).2 d hb'
  · exact last d ha'

theorem trim_append_of_ne_nil {c : Char} {a b : Text} (hc : isBlank c = false)
    (hb : trim b = b) (hne : b ≠ []) : trim (c :: a ++ b) = c :: a ++ b := by
  obtain ⟨d, hd⟩ := Option.ne_none_iff_exists'.mp (mt List.getLast?_eq_none_iff.mp hne)
  have last : (c :: a ++ b).getLast? = some d := by rw [List.getLast?_append, hd, Option.some_or]
  exact trim_of_ends rfl last hc ((trim_eq_self_iff.mp hb).2 d hd)

theorem trim_blank_cons {c : Char} (hc : isBlank c = true) (t : Text) :
    trim (c :: t) = trim t := by
  rw [trim, trimStart, List.dropWhile_cons_of_pos hc, trim, trimStart]

theorem trim_blanks_append {a : Text} (ha : ∀ c ∈ a, isBlank c = true) (t : Text) :
    trim (a ++ t) = trim t := by
  rw [trim, trimStart, List.dropWhile_append_of_pos ha, trim, trimStart]

theorem trim_append_blanks {b : Text} (hb : ∀ c ∈ b, isBlank c = true) (t : Text) :
    trim (t ++ b) = trim t := by
  have blank : b.dropWhile isBlank = [] := List.dropWhile_eq_nil_iff.mpr hb
  have reversed : ∀ c ∈ b.reverse, isBlank c = true := fun c hc => hb c (List.mem_reverse.mp hc)
  rw [trim, trimStart, List.dropWhile_append, trim, trimStart]
  split_ifs with h
  · rw [blank, List.isEmpty_iff.mp h]
  · rw [trimEnd, List.reverse_append, List.dropWhile_append_of_pos reversed, trimEnd]

theorem trim_append_blank {c : Char} (hc : isBlank c = true) (h : trim t = t) :
    trim (t ++ [c]) = t :=
  (trim_append_blanks (List.forall_mem_singleton.mpr hc) t).trans h

theorem exists_trim (t : Text) : ∃ a b, t = a ++ trim t ++ b ∧
    (∀ c ∈ a, isBlank c = true) ∧ ∀ c ∈ b, isBlank c = true := by
  refine ⟨t.takeWhile isBlank, ((trimStart t).reverse.takeWhile isBlank).reverse, ?_, ?_, ?_⟩
  · have behind : trim t ++ ((trimStart t).reverse.takeWhile isBlank).reverse = trimStart t := by
      rw [trim, trimEnd, ← List.reverse_append, List.takeWhile_append_dropWhile,
        List.reverse_reverse]
    rw [List.append_assoc, behind, trimStart, List.takeWhile_append_dropWhile]
  · exact fun c hc => List.mem_takeWhile_imp hc
  · exact fun c hc => List.mem_takeWhile_imp (List.mem_reverse.mp hc)

theorem trim_trim (t : Text) : trim (trim t) = trim t := by
  obtain ⟨a, b, whole, ha, hb⟩ := exists_trim t
  have twice : trim t = trim (a ++ trim t ++ b) := congrArg trim whole
  rw [trim_append_blanks hb, trim_blanks_append ha] at twice
  exact twice.symm

theorem mem_trim_iff {c : Char} (solid : isBlank c = false) : c ∈ trim t ↔ c ∈ t := by
  refine ⟨fun hmem => trim_subset t hmem, fun hmem => ?_⟩
  obtain ⟨a, b, whole, ha, hb⟩ := exists_trim t
  rw [whole, List.mem_append, List.mem_append] at hmem
  rcases hmem with (front | inner) | behind
  · exact absurd (ha c front) (Bool.eq_false_iff.mp solid)
  · exact inner
  · exact absurd (hb c behind) (Bool.eq_false_iff.mp solid)

theorem trim_eq_nil_iff : trim t = [] ↔ ∀ c ∈ t, isBlank c = true := by
  constructor
  · intro nothing
    obtain ⟨a, b, whole, ha, hb⟩ := exists_trim t
    rw [whole, nothing, List.append_nil]
    exact List.forall_mem_append.mpr ⟨ha, hb⟩
  · intro blank
    have trimmed := trim_blanks_append blank []
    rwa [List.append_nil] at trimmed

theorem dropWhile_blank_append {m : Text} {c : Char} (hc : m.head? = some c)
    (solid : isBlank c = false) (a : Text) :
    (a ++ m).dropWhile isBlank = a.dropWhile isBlank ++ m := by
  have kept : m.dropWhile isBlank = m := by
    refine (dropWhile_blank_eq_self_iff m).mpr fun d hd => ?_
    obtain rfl := Option.some.inj (hc.symm.trans hd)
    exact solid
  rw [List.dropWhile_append, kept]
  split_ifs with h
  · rw [List.isEmpty_iff.mp h, List.nil_append]
  · rfl

/-- Around a text without a blank at its ends, each side is trimmed by itself. -/
theorem trim_around {m : Text} {c d : Char} (hc : m.head? = some c) (hd : m.getLast? = some d)
    (first : isBlank c = false) (last : isBlank d = false) (a b : Text) :
    trim (a ++ m ++ b) = trimStart a ++ m ++ trimEnd b := by
  have front : trimStart (a ++ (m ++ b)) = trimStart a ++ (m ++ b) :=
    dropWhile_blank_append (by rw [List.head?_append, hc, Option.some_or]) first a
  have reversed : (trimStart a ++ m).reverse.head? = some d := by
    rw [List.head?_reverse, List.getLast?_append, hd, Option.some_or]
  rw [trim, List.append_assoc, front, ← List.append_assoc, trimEnd, List.reverse_append,
    dropWhile_blank_append reversed last, List.reverse_append, List.reverse_reverse, trimEnd]

end Trimming

structure IsWord (w : Text) : Prop where
  nonempty : w ≠ []
  solid : ∀ c ∈ w, isBlank c = false

namespace IsWord

theorem trim (h : IsWord w) : Text.trim w = w :=
  trim_eq_self_iff.mpr ⟨fun c hc => h.solid c (List.mem_of_mem_head? hc),
    fun c hc => h.solid c (List.mem_of_mem_getLast? hc)⟩

theorem notMem (h : IsWord w) {c : Char} (hc : isBlank c = true) : c ∉ w := fun hmem =>
  Bool.noConfusion ((h.solid c hmem).symm.trans hc)

theorem trimStart_append (h : IsWord w) (rest : Text) : trimStart (w ++ rest) = w ++ rest := by
  obtain ⟨c, w', rfl⟩ := List.exists_cons_of_ne_nil h.nonempty
  exact (dropWhile_blank_eq_self_iff _).mpr (by simpa using h.solid c List.mem_cons_self)

/-- The first word of a text that begins with a word and goes on with a blank, if at all. -/
theorem word? (h : IsWord w) (next : ∀ c ∈ rest.head?, isBlank c = true) :
    word? 0 (w ++ rest) = some w := by
  have solid : ∀ c ∈ w, (!isBlank c) = true := fun c hc => by rw [h.solid c hc]; rfl
  have stops : rest.takeWhile (fun c => !isBlank c) = [] := by
    cases rest with
    | nil => rfl
    | cons c rest => rw [List.takeWhile_cons_of_neg (by simp [next c rfl])]
  rw [Text.word?, h.trimStart_append]
  obtain ⟨c, w', rfl⟩ := List.exists_cons_of_ne_nil h.nonempty
  change some ((c :: w' ++ rest).takeWhile fun c => !isBlank c) = _
  rw [List.takeWhile_append_of_pos solid, stops, List.append_nil]

theorem word?_self (h : IsWord w) : Text.word? 0 w = some w := by
  have alone := h.word? (show ∀ c ∈ ([] : Text).head?, isBlank c = true by simp)
  rwa [List.append_nil] at alone

end IsWord

structure IsLine (t : Text) : Prop where
  feedless : '\n' ∉ t
  returnless : t.getLast? ≠ some '\r'

namespace IsLine

/-- Only the end of a line has to do without a carriage return. -/
theorem behind {front : Text} (h : IsLine t) (hne : t ≠ []) (hfront : '\n' ∉ front) :
    IsLine (front ++ t) := by
  refine ⟨fun hmem => (List.mem_append.mp hmem).elim hfront h.feedless, ?_⟩
  obtain ⟨c, hc⟩ := Option.ne_none_iff_exists'.mp (mt List.getLast?_eq_none_iff.mp hne)
  rw [List.getLast?_append, hc, Option.some_or, ← hc]
  exact h.returnless

theorem ofWord (h : IsWord w) : IsLine w :=
  ⟨h.notMem rfl, fun hlast => h.notMem rfl (List.mem_of_getLast? hlast)⟩

end IsLine

theorem forall_isLine {lines : List Text}
    (h : lines.all fun line => '\n' ∉ line ∧ line.getLast? ≠ some '\r') :
    ∀ line ∈ lines, IsLine line := fun line hline =>
  have ends := of_decide_eq_true (List.all_eq_true.mp h line hline)
  ⟨ends.1, ends.2⟩

section Pieces

variable {mark : Char} {a : Text}

theorem before_mark (h : mark ∉ a) : ∀ c ∈ a, (c != mark) = true := by
  intro c hc
  rw [bne_iff_ne]
  rintro rfl
  exact h hc

theorem cut?_append (h : mark ∉ a) (b : Text) : cut? mark (a ++ mark :: b) = some (a, b) := by
  rw [cut?, List.dropWhile_append_of_pos (before_mark h),
    List.takeWhile_append_of_pos (before_mark h)]
  simp

theorem pieces_append (h : mark ∉ a) (b : Text) :
    pieces mark (a ++ mark :: b) = a :: pieces mark b := by
  have dropped : (a ++ mark :: b).dropWhile (· != mark) = mark :: b := by
    rw [List.dropWhile_append_of_pos (before_mark h)]
    simp
  have taken : (a ++ mark :: b).takeWhile (· != mark) = a := by
    rw [List.takeWhile_append_of_pos (before_mark h)]
    simp
  rw [pieces]
  split
  · rename_i hcut
    rw [dropped] at hcut
    cases hcut
  · rename_i hcut
    rw [dropped] at hcut
    cases hcut
    rw [taken]

theorem pieces_single (h : mark ∉ a) : pieces mark a = [a] := by
  rw [pieces]
  split
  · rfl
  · rename_i hcut
    rw [List.dropWhile_eq_nil_iff.mpr (before_mark h)] at hcut
    cases hcut

theorem pieces_eq_splitOn (mark : Char) (t : Text) : pieces mark t = t.splitOn mark := by
  by_cases h : mark ∈ t
  · obtain ⟨a, b, rfl, absent⟩ := List.eq_append_cons_of_mem h
    have shorter : b.length < (a ++ mark :: b).length := by
      rw [List.length_append, List.length_cons]
      omega
    rw [pieces_append absent, List.splitOn_append_cons_self, List.splitOn_eq_singleton absent,
      pieces_eq_splitOn mark b, List.singleton_append]
  · rw [pieces_single h, List.splitOn_eq_singleton h]
termination_by t.length

end Pieces

end Text

namespace Source
open Utf8

theorem lineFeed_notMem_encode {line : Text} (h : '\n' ∉ line) : lineFeed ∉ encode line := by
  intro hmem
  obtain ⟨before, after, hcut⟩ := List.append_of_mem hmem
  have read : line = decode before ++ '\n' :: decode after := by
    rw [← decode_encode line, hcut]
    exact (decode_eq_append_iff (by decide : '\n'.toNat < 0x80)).mpr ⟨before, after, rfl, rfl, rfl⟩
  exact h (by rw [read]; simp)

theorem dropReturn_encode {line : Text} (h : line.getLast? ≠ some '\r') :
    dropReturn (encode line) = encode line := by
  rw [dropReturn, if_neg]
  intro hreturn
  obtain ⟨before, hcut⟩ := List.getLast?_eq_some_iff.mp hreturn
  have read : line = decode before ++ '\r' :: decode [] := by
    rw [← decode_encode line, hcut]
    exact (decode_eq_append_iff (by decide : '\r'.toNat < 0x80)).mpr ⟨before, [], rfl, rfl, rfl⟩
  rw [decode_nil] at read
  exact h (by rw [read]; simp)

/-- Lines that are put together with a line feed behind each are the lines of the text. -/
theorem texts_ofText {lines : List Text} (h : ∀ line ∈ lines, Text.IsLine line) :
    (ofText (lines.flatMap (· ++ ['\n']))).texts = lines := by
  have rows : Rows (encode (lines.flatMap (· ++ ['\n']))) (lines.map encode) [] := by
    refine ⟨?_, ?_, by simp⟩
    · clear h
      induction lines with
      | nil => rfl
      | cons line rest ih =>
          rw [List.flatMap_cons, encode_append, encode_append, ih]
          simp only [List.map_cons, List.flatMap_cons, List.append_nil]
          rfl
    · intro line hline
      obtain ⟨original, hmem, rfl⟩ := List.mem_map.mp hline
      exact lineFeed_notMem_encode (h original hmem).feedless
  rw [texts_rows (ofText (lines.flatMap (· ++ ['\n']))) rows, List.isEmpty_nil, Bool.true_or,
    if_pos rfl, List.append_nil, List.map_map]
  refine (List.map_congr_left fun line hline => ?_).trans (List.map_id lines)
  rw [Function.comp_apply, endedText, dropReturn_encode (h line hline).returnless, decode_encode]
  rfl

theorem forall_mem_of_texts {text : Text} {lines : List Text} {P : Text → Prop}
    (whole : text = lines.flatMap (· ++ ['\n'])) (h : ∀ line ∈ lines, Text.IsLine line)
    (holds : ∀ line ∈ (ofText text).texts, P line) : ∀ line ∈ lines, P line := by
  rwa [whole, texts_ofText h] at holds

theorem texts_ofText_flatMap {α : Type} {parts : List α} {text : α → Text} {lines : α → List Text}
    (whole : ∀ part ∈ parts, text part = (lines part).flatMap (· ++ ['\n']))
    (h : ∀ part ∈ parts, ∀ line ∈ lines part, Text.IsLine line) :
    (ofText (parts.flatMap text)).texts = parts.flatMap lines := by
  have joined : parts.flatMap text = (parts.flatMap lines).flatMap (· ++ ['\n']) := by
    rw [List.flatMap_assoc]
    exact List.flatMap_congr whole
  rw [joined]
  refine texts_ofText fun line hline => ?_
  obtain ⟨part, hpart, hmem⟩ := List.mem_flatMap.mp hline
  exact h part hpart line hmem

end Source

end RunLog
