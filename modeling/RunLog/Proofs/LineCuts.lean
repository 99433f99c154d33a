import Mathlib.Data.List.DropRight
import RunLog.Log.Source

/-!
# How octets fall into lines

Every row of octets is lines with their line feeds and a tail without one, and
cutting finds just these. The tail is what a source may have left unfinished
when it failed: the lines of a source that fails are those of a source that
ends behind the last line feed.
-/
namespace RunLog.Source

structure Rows (octets : Octets) (lines : List Octets) (tail : Octets) : Prop where
  joined : octets = lines.flatMap (· ++ [lineFeed]) ++ tail
  lines : ∀ line ∈ lines, lineFeed ∉ line
  tail : lineFeed ∉ tail

theorem exists_rows (octets : Octets) : ∃ lines tail, Rows octets lines tail := by
  induction octets with
  | nil => exact ⟨[], [], rfl, by simp, by simp⟩
  | cons b rest ih =>
      obtain ⟨lines, tail, rfl, hlines, htail⟩ := ih
      by_cases hb : lineFeed = b
      · subst hb
        exact ⟨[] :: lines, tail, rfl, by simpa using hlines, htail⟩
      · cases lines with
        | nil => exact ⟨[], b :: tail, rfl, hlines, by simp [hb, htail]⟩
        | cons line later =>
            rw [List.forall_mem_cons] at hlines
            exact ⟨(b :: line) :: later, tail, rfl,
              List.forall_mem_cons.mpr ⟨by simp [hb, hlines.1], hlines.2⟩, htail⟩

theorem before_lineFeed {octets : Octets} (h : lineFeed ∉ octets) :
    ∀ b ∈ octets, (b != lineFeed) = true := by
  intro b hb
  rw [bne_iff_ne]
  rintro rfl
  exact h hb

theorem cutOnto_tail {tail : Octets} (h : lineFeed ∉ tail) (done : List Octets) :
    cutOnto done tail = (done.reverse, tail) := by
  rw [cutOnto]
  split
  · rfl
  · rename_i b rest hcut
    rw [List.dropWhile_eq_nil_iff.mpr (before_lineFeed h)] at hcut
    cases hcut

theorem dropWhile_line {line : Octets} (h : lineFeed ∉ line) (rest : Octets) :
    (line ++ lineFeed :: rest).dropWhile (· != lineFeed) = lineFeed :: rest := by
  rw [List.dropWhile_append_of_pos (before_lineFeed h)]
  simp

theorem takeWhile_line {line : Octets} (h : lineFeed ∉ line) (rest : Octets) :
    (line ++ lineFeed :: rest).takeWhile (· != lineFeed) = line := by
  rw [List.takeWhile_append_of_pos (before_lineFeed h)]
  simp

theorem cutOnto_line {line : Octets} (h : lineFeed ∉ line) (done : List Octets)
    (rest : Octets) :
    cutOnto done (line ++ lineFeed :: rest) = cutOnto (line :: done) rest := by
  rw [cutOnto]
  split
  · rename_i hcut
    rw [dropWhile_line h] at hcut
    cases hcut
  · rename_i b rest' hcut
    rw [dropWhile_line h] at hcut
    cases hcut
    rw [takeWhile_line h]

theorem cutOnto_rows {octets tail : Octets} {lines : List Octets} (h : Rows octets lines tail)
    (done : List Octets) : cutOnto done octets = (done.reverse ++ lines, tail) := by
  obtain ⟨rfl, hlines, htail⟩ := h
  induction lines generalizing done with
  | nil => simp [cutOnto_tail htail]
  | cons line rest ih =>
      rw [List.forall_mem_cons] at hlines
      simp only [List.flatMap_cons, List.append_assoc,
        List.cons_append, List.nil_append, cutOnto_line hlines.1]
      rw [ih (line :: done) hlines.2, List.reverse_cons, List.append_assoc]
      rfl

theorem cut_rows {octets tail : Octets} {lines : List Octets} (h : Rows octets lines tail) :
    cut octets = (lines, tail) :=
  cutOnto_rows h []

/-- The text of a line that has its ending. -/
def endedText (line : Octets) : Text :=
  Utf8.decode (dropReturn line)

/-- The texts of a source are those of the lines with their ending and then that of the tail,
unless there is none or the source failed in it. -/
theorem texts_rows (s : Source) {tail : Octets} {lines : List Octets}
    (h : Rows s.octets lines tail) :
    s.texts = lines.map endedText ++
      if tail.isEmpty || s.failure.isSome then [] else [Utf8.decode tail] := by
  simp only [texts, cut_rows h]
  rfl

theorem lines_empty : (⟨[], none⟩ : Source).lines = [] := by
  rw [lines, texts_rows _ (show Rows [] [] [] from ⟨rfl, by simp, by simp⟩)]
  rfl

theorem mem_lines_of_buffered {s : Source} {size : Nat} {line : Line}
    (h : line ∈ (s.buffered size).lines) : line ∈ s.lines := by
  cases size with
  | zero =>
      rw [buffered, lines_empty] at h
      cases h
  | succ _ => exact h

theorem lines_congr {s t : Source} (h : s.texts = t.texts) : s.lines = t.lines := by
  rw [Source.lines, h, Source.lines]

/-- What was delivered up to the last line feed. -/
def delivered (octets : Octets) : Octets :=
  octets.rdropWhile (· != lineFeed)

theorem delivered_rows {octets tail : Octets} {lines : List Octets}
    (h : Rows octets lines tail) : Rows (delivered octets) lines [] := by
  obtain ⟨rfl, hlines, htail⟩ := h
  refine ⟨?_, hlines, by simp⟩
  rw [List.append_nil, delivered]
  induction tail using List.reverseRecOn with
  | nil =>
      rw [List.append_nil, List.rdropWhile_eq_self_iff]
      intro hne
      rcases List.eq_nil_or_concat lines with rfl | ⟨before, line, rfl⟩
      · exact absurd rfl hne
      · simp
  | append_singleton tail b ih =>
      have hb := before_lineFeed htail b (by simp)
      rw [← List.append_assoc, List.rdropWhile_concat_pos _ _ b hb]
      exact ih fun hmem => htail (List.mem_append_left _ hmem)

/-- A source that fails has the lines that it delivered with their ending. -/
theorem lines_of_failure (octets : Octets) (reason : Text) :
    (⟨octets, some reason⟩ : Source).lines = (ofOctets (delivered octets)).lines := by
  obtain ⟨lines, tail, h⟩ := exists_rows octets
  refine lines_congr ?_
  rw [texts_rows ⟨octets, some reason⟩ h,
    texts_rows (ofOctets (delivered octets)) (delivered_rows h)]
  simp

end RunLog.Source
