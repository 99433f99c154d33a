import Mathlib
import RunLog.Log.Cursor
import RunLog.Log.Outcome
import RunLog.Proofs.LineCuts

/-!
# Where lines end

A call of a cursor answers with the first of the lines ahead and goes behind it, or it
tells how the source ends and stays (`Cursor.next_cases`). So the calls go through the
lines of a source one by one, and all later calls answer alike (`Cursor.next_after`):
reading line by line and taking a source apart at once give the same.

The lines are what stands between the endings. Which of the two endings a line has is
not seen, if the line does not end with a carriage return itself, and neither is the
ending of the last line, so a reading of a log does not depend on them.
-/
namespace RunLog

namespace Cursor
open Source

/-- The lines that are ahead. -/
def lines (c : Cursor) : List Line :=
  (c.ahead.texts.zipIdx (c.number + 1)).map fun (t, n) => ⟨n, t⟩

/-- The answer behind the last line. -/
def ending (failure : Option Text) : Except Fault (Option Line) :=
  match failure with
  | some reason => .error (.unreadable reason)
  | none => .ok none

theorem next_line {line : Octets} (h : lineFeed ∉ line) (rest : Octets) (failure : Option Text)
    (number : Nat) :
    next ⟨⟨line ++ lineFeed :: rest, failure⟩, number⟩ =
      (.ok (some ⟨number + 1, endedText line⟩), ⟨⟨rest, failure⟩, number + 1⟩) := by
  simp only [next, dropWhile_line h, takeWhile_line h, endedText]

theorem next_tail {tail : Octets} (h : lineFeed ∉ tail) (failure : Option Text) (number : Nat) :
    next ⟨⟨tail, failure⟩, number⟩ =
      if tail.isEmpty || failure.isSome then (ending failure, ⟨⟨[], failure⟩, number⟩)
      else (.ok (some ⟨number + 1, Utf8.decode tail⟩), ⟨⟨[], failure⟩, number + 1⟩) := by
  have dropped : tail.dropWhile (· != lineFeed) = [] :=
    List.dropWhile_eq_nil_iff.mpr (before_lineFeed h)
  cases failure with
  | some reason => simp [next, dropped, ending]
  | none => cases tail <;> simp [next, dropped, ending]

/-- One call answers with the first line ahead, or tells that there is none. -/
theorem next_cases (c : Cursor) : c.next.2.ahead.failure = c.ahead.failure ∧
    ((∃ line, c.next.1 = .ok (some line) ∧ c.lines = line :: c.next.2.lines ∧
        c.next.2.number = c.number + 1) ∨
      c.next.1 = ending c.ahead.failure ∧ c.lines = [] ∧ c.next.2.lines = [] ∧
        c.next.2.number = c.number) := by
  obtain ⟨⟨octets, failure⟩, number⟩ := c
  obtain ⟨rows, tail, h⟩ := exists_rows octets
  cases rows with
  | nil =>
      have empty : Rows [] [] [] := ⟨rfl, List.forall_mem_nil _, List.not_mem_nil⟩
      have nothing : (⟨[], failure⟩ : Source).texts = [] := texts_rows ⟨[], failure⟩ empty
      have texts := texts_rows ⟨octets, failure⟩ h
      have answer := next_tail h.tail failure number
      have alone : octets = tail := h.joined
      subst alone
      rw [answer]
      split_ifs at texts ⊢ with ended
      · refine ⟨rfl, .inr ⟨rfl, ?_, ?_, rfl⟩⟩
        · simp [lines, texts]
        · simp [lines, nothing]
      · refine ⟨rfl, .inl ⟨_, rfl, ?_, rfl⟩⟩
        simp [lines, texts, nothing]
  | cons line later =>
      obtain ⟨first, others⟩ := List.forall_mem_cons.mp h.lines
      have behind : Rows (later.flatMap (· ++ [lineFeed]) ++ tail) later tail :=
        ⟨rfl, others, h.tail⟩
      have whole : octets = line ++ lineFeed :: (later.flatMap (· ++ [lineFeed]) ++ tail) := by
        rw [h.joined]
        simp
      have texts : (⟨octets, failure⟩ : Source).texts =
          endedText line ::
            (⟨later.flatMap (· ++ [lineFeed]) ++ tail, failure⟩ : Source).texts := by
        rw [texts_rows ⟨octets, failure⟩ h, texts_rows ⟨_, failure⟩ behind]
        rfl
      have answer := next_line first (later.flatMap (· ++ [lineFeed]) ++ tail) failure number
      rw [← whole] at answer
      rw [answer]
      refine ⟨rfl, .inl ⟨_, rfl, ?_, rfl⟩⟩
      simp [lines, texts]

/-- The place after so many calls. -/
def after (c : Cursor) : Nat → Cursor
  | 0 => c
  | calls + 1 => c.next.2.after calls

/-- Each call answers with the next of the lines, and all later ones as the source ends. -/
theorem next_after (c : Cursor) (calls : Nat) :
    (c.after calls).next.1 = (c.lines[calls]?.map (.ok ∘ some)).getD (ending c.ahead.failure) ∧
      (c.after calls).number = c.number + min calls c.lines.length := by
  induction calls generalizing c with
  | zero =>
      rcases (next_cases c).2 with ⟨line, answer, shape, -⟩ | ⟨answer, shape, -⟩
      · simp [after, answer, shape]
      · simp [after, answer, shape]
  | succ calls ih =>
      obtain ⟨same, cases⟩ := next_cases c
      obtain ⟨answer, number⟩ := ih c.next.2
      rw [after, answer, number, same]
      rcases cases with ⟨line, -, shape, count⟩ | ⟨-, shape, nothing, count⟩
      · simp [shape, count]
        omega
      · simp [shape, nothing, count]

theorem next_ofOctets (octets : Octets) (calls : Nat) :
    ((ofSource (.ofOctets octets)).after calls).next.1 = .ok ((ofOctets octets).lines[calls]?) ∧
      ((ofSource (.ofOctets octets)).after calls).number =
        min calls (ofOctets octets).lines.length := by
  obtain ⟨answer, number⟩ := next_after (ofSource (.ofOctets octets)) calls
  have all : (ofSource (.ofOctets octets)).lines = (ofOctets octets).lines := rfl
  rw [answer, number, all]
  refine ⟨?_, Nat.zero_add _⟩
  cases (ofOctets octets).lines[calls]? <;> rfl

end Cursor

namespace Source

inductive Ending where
  | feed
  | returnFeed
  deriving DecidableEq, Repr

def Ending.front : Ending → Octets
  | .feed => []
  | .returnFeed => [carriageReturn]

def Ending.octets (ending : Ending) : Octets :=
  ending.front ++ [lineFeed]

/-- Lines with their endings, one behind the other, and what stands behind the last of them. -/
def written (rows : List (Octets × Ending)) (tail : Octets) : Octets :=
  rows.flatMap (fun row => row.1 ++ row.2.octets) ++ tail

/-- The lines without their endings; the tail is one of them if it is not empty. -/
def contents (rows : List (Octets × Ending)) (tail : Octets) : List Octets :=
  rows.map Prod.fst ++ if tail.isEmpty then [] else [tail]

variable {octets tail : Octets} {lines : List Octets} {rows : List (Octets × Ending)}

theorem endedText_of_returnless {line : Octets} (h : line.getLast? ≠ some carriageReturn) :
    endedText line = Utf8.decode line := by
  rw [endedText, dropReturn, if_neg h]

theorem endedText_row {row : Octets × Ending} (h : row.1.getLast? ≠ some carriageReturn) :
    endedText (row.1 ++ row.2.front) = Utf8.decode row.1 := by
  obtain ⟨line, ending⟩ := row
  cases ending with
  | feed =>
      rw [Ending.front, List.append_nil]
      exact endedText_of_returnless h
  | returnFeed => rw [Ending.front, endedText, dropReturn, if_pos List.getLast?_concat,
      List.dropLast_concat]

/-- Lines are read back from their endings, whichever each of them has. -/
theorem texts_written
    (hrows : ∀ row ∈ rows, lineFeed ∉ row.1 ∧ row.1.getLast? ≠ some carriageReturn)
    (htail : lineFeed ∉ tail) :
    (ofOctets (written rows tail)).texts = (contents rows tail).map Utf8.decode := by
  have h : Rows (written rows tail) (rows.map fun row => row.1 ++ row.2.front) tail := by
    refine ⟨?_, List.forall_mem_map.mpr fun row hrow => ?_, htail⟩
    · simp [written, List.flatMap_map, Ending.octets]
    · rw [List.mem_append, not_or]
      refine ⟨(hrows row hrow).1, ?_⟩
      cases row.2 <;> decide
  have texts : (rows.map fun row => row.1 ++ row.2.front).map endedText =
      (rows.map Prod.fst).map Utf8.decode := by
    rw [List.map_map, List.map_map]
    exact List.map_congr_left fun row hrow => endedText_row (hrows row hrow).2
  rw [texts_rows (ofOctets (written rows tail)) h, texts, contents, List.map_append]
  cases tail <;> rfl

theorem tail_eq_nil_iff (h : Rows octets lines tail) :
    tail = [] ↔ octets = [] ∨ octets.getLast? = some lineFeed := by
  obtain ⟨rfl, hlines, htail⟩ := h
  constructor
  · rintro rfl
    rcases List.eq_nil_or_concat lines with rfl | ⟨before, line, rfl⟩
    · exact .inl rfl
    · exact .inr (by simp)
  · rintro (nothing | last)
    · exact (List.append_eq_nil_iff.mp nothing).2
    · by_contra more
      rw [List.getLast?_append_of_ne_nil _ more] at last
      exact htail (List.mem_of_getLast? last)

/-- The octets with a carriage return before each line feed. -/
def withReturns (octets : Octets) : Octets :=
  octets.flatMap fun b => if b = lineFeed then [carriageReturn, lineFeed] else [b]

theorem withReturns_append (a b : Octets) : withReturns (a ++ b) = withReturns a ++ withReturns b :=
  List.flatMap_append

theorem withReturns_of_notMem (h : lineFeed ∉ octets) : withReturns octets = octets := by
  induction octets with
  | nil => rfl
  | cons b rest ih =>
      obtain ⟨hb, hrest⟩ := not_or.mp (mt List.mem_cons.mpr h)
      rw [withReturns, List.flatMap_cons, if_neg (Ne.symm hb), ← withReturns, ih hrest]
      rfl

theorem withReturns_rows (h : Rows octets lines tail) :
    withReturns octets = written (lines.map (·, .returnFeed)) tail := by
  obtain ⟨rfl, hlines, htail⟩ := h
  rw [withReturns_append, withReturns_of_notMem htail, written, List.flatMap_map]
  congr 1
  induction lines with
  | nil => rfl
  | cons line rest ih =>
      obtain ⟨first, others⟩ := List.forall_mem_cons.mp hlines
      rw [List.flatMap_cons, List.flatMap_cons, withReturns_append, withReturns_append,
        withReturns_of_notMem first, ih others]
      rfl

theorem Rows.returnless (h : Rows octets lines tail) (clean : carriageReturn ∉ octets) :
    (∀ line ∈ lines, line.getLast? ≠ some carriageReturn) ∧
      tail.getLast? ≠ some carriageReturn := by
  rw [h.joined, List.mem_append, not_or] at clean
  refine ⟨fun line hline last => clean.1 ?_, fun last => clean.2 (List.mem_of_getLast? last)⟩
  exact List.mem_flatMap.mpr
    ⟨line, hline, List.mem_append_left _ (List.mem_of_getLast? last)⟩

theorem lines_withReturns (clean : carriageReturn ∉ octets) :
    (ofOctets (withReturns octets)).lines = (ofOctets octets).lines := by
  obtain ⟨lines, tail, h⟩ := exists_rows octets
  have returnless := (h.returnless clean).1
  have ended (ending : Ending) : (ofOctets (written (lines.map (·, ending)) tail)).texts =
      (lines ++ if tail.isEmpty then [] else [tail]).map Utf8.decode := by
    rw [texts_written ?_ h.tail, contents, List.map_map]
    · simp
    · exact List.forall_mem_map.mpr fun line hline => ⟨h.lines line hline, returnless line hline⟩
  have feeds : octets = written (lines.map (·, .feed)) tail := by
    rw [h.joined, written, List.flatMap_map]
    rfl
  refine lines_congr ?_
  rw [withReturns_rows h, ended]
  conv_rhs => rw [feeds, ended]

/-- A line feed behind the last line ends it, and begins no line of its own. -/
theorem lines_append_lineFeed (clean : carriageReturn ∉ octets) (hne : octets ≠ [])
    (unended : octets.getLast? ≠ some lineFeed) :
    (ofOctets (octets ++ [lineFeed])).lines = (ofOctets octets).lines := by
  obtain ⟨lines, tail, h⟩ := exists_rows octets
  have more : tail ≠ [] := fun nothing => (tail_eq_nil_iff h).mp nothing |>.elim hne unended
  have ended : Rows (octets ++ [lineFeed]) (lines ++ [tail]) [] :=
    ⟨by simp [h.joined], List.forall_mem_append.mpr ⟨h.lines, by simpa using h.tail⟩, by simp⟩
  refine lines_congr ?_
  rw [texts_rows (ofOctets (octets ++ [lineFeed])) ended, texts_rows (ofOctets octets) h,
    List.map_append]
  simp [ofOctets, more, endedText_of_returnless (h.returnless clean).2]

theorem count_lineFeed (h : Rows octets lines tail) : octets.count lineFeed = lines.length := by
  obtain ⟨rfl, hlines, htail⟩ := h
  rw [List.count_append, List.count_eq_zero.mpr htail, Nat.add_zero]
  induction lines with
  | nil => rfl
  | cons line rest ih =>
      obtain ⟨first, others⟩ := List.forall_mem_cons.mp hlines
      rw [List.flatMap_cons, List.count_append, List.count_append, List.count_eq_zero.mpr first,
        ih others, List.length_cons]
      simp
      omega

theorem length_lines (octets : Octets) : (ofOctets octets).lines.length =
    octets.count lineFeed + if octets = [] ∨ octets.getLast? = some lineFeed then 0 else 1 := by
  obtain ⟨lines, tail, h⟩ := exists_rows octets
  rw [Source.lines, List.length_map, List.length_zipIdx, texts_rows (ofOctets octets) h,
    count_lineFeed h, List.length_append, List.length_map]
  simp only [← tail_eq_nil_iff h]
  cases tail <;> rfl

/-- Lines that hold no line feed and do not end with a carriage return are read one by one, in
order and numbered from one, whichever ending each of them has and whether the last one has any;
all later calls answer that there is no line, and the number stays. In any octets there is a line
for each line feed, and one more for what stands behind the last. So a log without carriage
returns is read alike if each line feed gets one, or if its last line gets a line feed. -/
theorem line_endings :
    (∀ rows tail, (∀ row ∈ rows, lineFeed ∉ row.1 ∧ row.1.getLast? ≠ some carriageReturn) →
      lineFeed ∉ tail → ∀ calls,
      let cursor := (Cursor.ofSource (.ofOctets (written rows tail))).after calls
      cursor.next.1 =
          .ok ((contents rows tail)[calls]?.map fun line => ⟨calls + 1, Utf8.decode line⟩) ∧
        cursor.number = min calls (contents rows tail).length) ∧
    (∀ octets, (ofOctets octets).lines.length =
        octets.count lineFeed + (if octets = [] ∨ octets.getLast? = some lineFeed then 0 else 1) ∧
      ∀ calls, ((Cursor.ofSource (.ofOctets octets)).after calls).next.1 =
        .ok ((ofOctets octets).lines[calls]?)) ∧
    ∀ options octets, carriageReturn ∉ octets →
      Outcome.ofSource options (.ofOctets (withReturns octets)) =
          Outcome.ofSource options (.ofOctets octets) ∧
        (octets ≠ [] → octets.getLast? ≠ some lineFeed →
          Outcome.ofSource options (.ofOctets (octets ++ [lineFeed])) =
            Outcome.ofSource options (.ofOctets octets)) := by
  have outcomes (options : Options) {octets others : Octets}
      (same : (ofOctets octets).lines = (ofOctets others).lines) :
      Outcome.ofSource options (.ofOctets octets) =
        Outcome.ofSource options (.ofOctets others) :=
    Outcome.ofSource_congr same rfl options
  refine ⟨fun rows tail hrows htail calls => ?_,
    fun octets => ⟨length_lines octets, fun calls => (Cursor.next_ofOctets octets calls).1⟩,
    fun options octets clean => ⟨outcomes options (lines_withReturns clean), fun hne unended =>
      outcomes options (lines_append_lineFeed clean hne unended)⟩⟩
  obtain ⟨answer, number⟩ := Cursor.next_ofOctets (written rows tail) calls
  have texts := texts_written hrows htail
  refine ⟨?_, ?_⟩
  · rw [answer, Source.lines, texts]
    simp [Nat.add_comm, Function.comp_def]
  · rw [number, Source.lines, texts]
    simp

/-- Three lines: one with a carriage return in its ending, an empty one, and a last one without
an ending that is no proper text. -/
def mixedRows : List (Octets × Ending) :=
  [([0x61], .returnFeed), ([], .feed)]

theorem line_endings_mixedRows :
    let cursor := Cursor.ofSource (.ofOctets (written mixedRows [0x62, 0xFF]))
    let log := Utf8.encode "Inputs:\nnum_threads: 2".toList
    (∀ row ∈ mixedRows, lineFeed ∉ row.1 ∧ row.1.getLast? ≠ some carriageReturn) ∧
      lineFeed ∉ ([0x62, 0xFF] : Octets) ∧
      written mixedRows [0x62, 0xFF] = [0x61, 0x0D, 0x0A, 0x0A, 0x62, 0xFF] ∧
      (cursor.after 2).next.1 = .ok (some ⟨3, "b\uFFFD".toList⟩) ∧
      (cursor.after 5).next.1 = .ok none ∧ (cursor.after 5).number = 3 ∧
      carriageReturn ∉ log ∧ log ≠ [] ∧ log.getLast? ≠ some lineFeed ∧
      Outcome.ofSource .standard (.ofOctets (withReturns log)) =
        Outcome.ofSource .standard (.ofOctets log) ∧
      Outcome.ofSource .standard (.ofOctets (log ++ [lineFeed])) =
        Outcome.ofSource .standard (.ofOctets log) := by
  intro cursor log
  have rows : ∀ row ∈ mixedRows, lineFeed ∉ row.1 ∧ row.1.getLast? ≠ some carriageReturn := by
    decide
  have tail : lineFeed ∉ ([0x62, 0xFF] : Octets) := by decide
  have clean : carriageReturn ∉ log := by decide
  have nonempty : log ≠ [] := by decide
  have unended : log.getLast? ≠ some lineFeed := by decide
  have text : Utf8.decode [0x62, 0xFF] = "b\uFFFD".toList := by cbv
  obtain ⟨reads, -, alike⟩ := line_endings
  obtain ⟨returns, feed⟩ := alike .standard log clean
  have third := (reads mixedRows [0x62, 0xFF] rows tail 2).1
  have sixth := reads mixedRows [0x62, 0xFF] rows tail 5
  refine ⟨rows, tail, by decide, third.trans ?_, sixth.1, sixth.2, clean, nonempty, unended,
    returns, feed nonempty unended⟩
  rw [← text]
  rfl

end Source

end RunLog
