import Mathlib
import RunLog.Proofs.SampleLines
import RunLog.Sample.Micro

/-!
# What the lines of a micro sample say

Each line of a sample run of the micro benchmark is read as the marker it was
written for, or it is chatter. A line `key: value` is an input parameter when its
key is a plain word, so the line that names the implementation is chatter although
it looks alike: its key has a blank inside. The names of the data structure and of
its synchronization may be anything that keeps to one line and has no blanks
around it, the empty name among them.
-/
namespace RunLog

namespace Text

/-- A label, a colon and a value: what is left of the line without the blanks around it. -/
theorem trim_labelled {label value : Text} (hne : label ≠ []) (hlabel : trim label = label)
    (hvalue : trim value = value) :
    ∃ rest, trim ("  ".toList ++ label ++ ": ".toList ++ value) = label ++ ':' :: rest ∧
      trim rest = value := by
  have colon : trim (label ++ [':']) = label ++ [':'] := trim_append hne hlabel (by decide)
  obtain ⟨rest, whole, trimmed⟩ :=
    exists_trim_behind (List.append_ne_nil_of_left_ne_nil hne _) colon hvalue
  refine ⟨rest, ?_, trimmed⟩
  have split : "  ".toList ++ label ++ ": ".toList ++ value =
      ' ' :: ' ' :: (label ++ [':'] ++ ' ' :: value) := by simp
  rw [split, trim_blank_cons rfl, trim_blank_cons rfl, whole, List.append_assoc]
  rfl

theorem word?_padLeft (width : ℕ) (t : Text) : word? 0 (Table.padLeft width t) = word? 0 t := by
  rw [Table.padLeft]
  induction width - t.length with
  | zero => rfl
  | succ n ih => rw [List.replicate_succ, List.cons_append, word?_blank_cons rfl, ih]

/-- A line goes on as a line when what follows has no line feed, and no blanks around it. -/
theorem IsLine.before {front t : Text} (h : IsLine front) (trimmed : trim t = t)
    (feedless : '\n' ∉ t) : IsLine (front ++ t) := by
  cases t with
  | nil => rwa [List.append_nil]
  | cons c t =>
      have returnless : (c :: t).getLast? ≠ some '\r' := by
        intro last
        cases (trim_eq_self_iff.mp trimmed).2 '\r' last
      exact IsLine.behind ⟨feedless, returnless⟩ (List.cons_ne_nil c t) h.feedless

end Text

namespace Decimal

theorem isWord_natural (n : ℕ) : Text.IsWord (natural n) :=
  ⟨natural_ne_nil n, fun c hc => Text.isBlank_of_digit (natural_digits n c hc)⟩

theorem isWord_signed (x : Float) {t : Text} (h : Text.IsWord t) : Text.IsWord (signed x t) := by
  unfold signed
  split_ifs
  · exact ⟨List.cons_ne_nil _ _, List.forall_mem_cons.mpr ⟨rfl, h.solid⟩⟩
  · exact h

theorem isWord_fixed (places : ℕ) (x : Float) : Text.IsWord (fixed places x) := by
  unfold fixed
  split_ifs
  · exact ⟨by simp, by simp [Text.isBlank]⟩
  · exact isWord_signed x ⟨by simp, by simp [Text.isBlank]⟩
  · refine isWord_signed x ⟨by simp, ?_⟩
    rw [List.forall_mem_append, List.forall_mem_cons, padZeros, List.forall_mem_append]
    refine ⟨(isWord_natural _).solid, rfl, fun c hc => ?_, (isWord_natural _).solid⟩
    exact Text.isBlank_of_digit (digits_replicate _ c hc)

end Decimal

namespace Sample.Micro

/-- The eleven input parameters that a sample prints, in their order. -/
def parameters (s : Micro) : List (Text × Text) :=
  [("num_threads".toList, Decimal.natural s.threads),
    ("init_tree_size".toList, Decimal.natural s.initialSize),
    ("max_key".toList, Decimal.natural (2 * s.initialSize)),
    ("lookup_frac".toList, s.lookupShare),
    ("rqery_frac".toList, "0".toList),
    ("insert_frac".toList, Decimal.natural (insertShare s.lookupShare)),
    ("init_seed".toList, "1024".toList),
    ("thread_seed".toList, "128".toList),
    ("ds_name".toList, s.structureName),
    ("sync_type".toList, s.synchronization),
    ("run_time_sec".toList, "5".toList)]

/-- The size that a sample prints at its end. -/
def finalSize (s : Micro) : Nat :=
  s.expectedSize.getD s.initialSize

/-! ### The lines of a sample, without their line feeds -/

def parameterLine (p : Text × Text) : Text :=
  "  ".toList ++ p.1 ++ ": ".toList ++ p.2

def mapLine (name : Text) : Text :=
  "  MAP implementation: ".toList ++ name

def signatureLine (signature : Text) : Text :=
  "RBT implementation ".toList ++ signature

def rateLine (rate : Text) : Text :=
  "Throughput(Ops/usec): ".toList ++ Table.padLeft 7 rate

def sizeLine (size : Nat) : Text :=
  "Expected size of MAP: ".toList ++ Decimal.natural size

/-- The lines behind the input parameters and before the figures. -/
def chatterLines (s : Micro) : List Text :=
  [[], "Benchmark".toList, "=======================".toList, mapLine s.structureName,
    [], "Tree initialization (at core 0)...".toList,
    "Initialization finished in 0.12 sec".toList]

def lines (s : Micro) : List Text :=
  ["Inputs:".toList, "====================".toList] ++ s.parameters.map parameterLine ++
    s.chatterLines ++ s.implementation.toList.map signatureLine ++
    [[], "Time elapsed:   5.00".toList, rateLine (Decimal.fixed 3 s.throughput),
      sizeLine s.finalSize]

theorem largestKey_eq {n : ℕ} (h : n < 2 ^ 63) : largestKey n = 2 * n := by
  have fits : n * 2 < Decimal.sizeLimit := by
    change n * 2 < 2 ^ 64
    omega
  rw [largestKey, Nat.mod_eq_of_lt fits, Nat.mul_comm]

theorem inputLines_eq {s : Micro} (h : s.initialSize < 2 ^ 63) :
    s.inputLines = (s.parameters.map parameterLine).flatMap (· ++ ['\n']) := by
  have line (key : String) (value : Text) :
      inputLine key value = parameterLine (key.toList, value) ++ ['\n'] := rfl
  rw [inputLines, largestKey_eq h]
  simp only [line, parameters, List.map_cons, List.map_nil, List.flatMap_cons, List.flatMap_nil,
    List.append_assoc, List.append_nil]

theorem text_eq {s : Micro} (h : s.initialSize < 2 ^ 63) :
    s.text = s.lines.flatMap (· ++ ['\n']) := by
  have implementation : implementationLine s.implementation =
      (s.implementation.toList.map signatureLine).flatMap (· ++ ['\n']) := by
    cases s.implementation with
    | none => rfl
    | some signature => exact (List.append_nil _).symm
  have opening : "Inputs:\n".toList = "Inputs:".toList ++ ['\n'] := rfl
  have rule : "====================\n".toList = "====================".toList ++ ['\n'] := rfl
  have benchmark : "\nBenchmark\n".toList = ['\n'] ++ ("Benchmark".toList ++ ['\n']) := rfl
  have longRule : "=======================\n".toList =
      "=======================".toList ++ ['\n'] := rfl
  have gap : "\n\n".toList = ['\n'] ++ ['\n'] := rfl
  have filling : "Tree initialization (at core 0)...\n".toList =
      "Tree initialization (at core 0)...".toList ++ ['\n'] := rfl
  have filled : "Initialization finished in 0.12 sec\n".toList =
      "Initialization finished in 0.12 sec".toList ++ ['\n'] := rfl
  have elapsed : "\nTime elapsed:   5.00\n".toList =
      ['\n'] ++ ("Time elapsed:   5.00".toList ++ ['\n']) := rfl
  have size : "\nExpected size of MAP: ".toList =
      ['\n'] ++ "Expected size of MAP: ".toList := rfl
  unfold text lines chatterLines mapLine rateLine sizeLine finalSize
  rw [inputLines_eq h, implementation]
  simp only [opening, rule, benchmark, longRule, gap, filling, filled, elapsed, size,
    List.flatMap_append, List.flatMap_cons, List.flatMap_nil, List.append_assoc, List.append_nil,
    List.nil_append]

/-! ### The markers on the lines -/

/-- None of the keys is an opening of another marker. -/
theorem isKey_parameters (s : Micro) : ∀ p ∈ s.parameters, Marker.IsKey p.1 := by
  simp only [parameters, List.forall_mem_cons]
  refine ⟨?_, ?_, ?_, ?_, ?_, ?_, ?_, ?_, ?_, ?_, ?_, List.forall_mem_nil _⟩
  all_goals exact Marker.isKey (List.cons_ne_nil _ _) (by decide) (by decide)

theorem read_parameterLine {key value : Text} (hkey : Marker.IsKey key)
    (hvalue : Text.trim value = value) :
    Marker.read (parameterLine (key, value)) = some (.input key value) := by
  obtain ⟨rest, whole, trimmed⟩ := Text.trim_labelled hkey.nonempty hkey.isWord.trim hvalue
  have some : (key ++ ':' :: rest).isEmpty = false := by cases key <;> rfl
  simp only [Marker.read, parameterLine, whole, some, Bool.false_eq_true, if_false,
    hkey.unopened, Marker.input?_eq hkey, trimmed]

/-- The line that names the data structure once more is no parameter: its key is two words. -/
theorem read_mapLine {name : Text} (h : Text.trim name = name) :
    Marker.read (mapLine name) = none := by
  have label : Text.trim "MAP implementation".toList = "MAP implementation".toList := by decide
  obtain ⟨rest, whole, -⟩ := Text.trim_labelled (by decide) label h
  have line : mapLine name =
      "  ".toList ++ "MAP implementation".toList ++ ": ".toList ++ name := rfl
  rw [Marker.read, line, whole]
  rfl

theorem read_signatureLine {signature : Text} (h : Text.IsWord signature) :
    Marker.read (signatureLine signature) = some (.implementation signature) :=
  Marker.Sound.read_line (m := .implementation signature) h nofun

theorem read_rateLine {rate : Text} (h : Text.IsWord rate) :
    Marker.read (rateLine rate) = some (.throughput rate) := by
  have padded : rateLine rate = "Throughput(Ops/usec): ".toList ++
      List.replicate (7 - rate.length) ' ' ++ rate := (List.append_assoc _ _ _).symm
  have trimmed : Marker.read (rateLine rate) = Marker.ofTrimmed? (rateLine rate) := by
    rw [padded]
    exact Marker.read_of_word _ rfl rfl h
  rw [trimmed]
  change (Text.word? 0 (' ' :: Table.padLeft 7 rate)).map Marker.throughput = _
  rw [Text.word?_blank_cons rfl, Text.word?_padLeft, h.word?_self]
  rfl

theorem read_sizeLine (size : ℕ) :
    Marker.read (sizeLine size) = some (.expectedSize (Decimal.natural size)) :=
  Marker.Sound.read_line (m := .expectedSize (Decimal.natural size)) (Decimal.isWord_natural size)
    nofun

/-! ### The lines are lines of their own -/

theorem isLine_parameterLine {key value : Text} (hkey : Marker.IsKey key)
    (trimmed : Text.trim value = value) (feedless : '\n' ∉ value) :
    Text.IsLine (parameterLine (key, value)) := by
  have behind : Text.IsLine ": ".toList := ⟨by decide, by decide⟩
  have solid : '\n' ∉ "  ".toList ++ key := by simpa using hkey.isWord.notMem rfl
  exact (behind.behind (List.cons_ne_nil _ _) solid).before trimmed feedless

theorem isLine_mapLine {name : Text} (trimmed : Text.trim name = name) (feedless : '\n' ∉ name) :
    Text.IsLine (mapLine name) :=
  Text.IsLine.before ⟨by decide, by decide⟩ trimmed feedless

theorem isLine_signatureLine {signature : Text} (h : Text.IsWord signature) :
    Text.IsLine (signatureLine signature) :=
  Text.IsLine.before ⟨by decide, by decide⟩ h.trim (h.notMem rfl)

theorem isLine_rateLine {rate : Text} (h : Text.IsWord rate) : Text.IsLine (rateLine rate) := by
  have padding : '\n' ∉ "Throughput(Ops/usec): ".toList ++
      List.replicate (7 - rate.length) ' ' := by
    simp
  have padded := (Text.IsLine.ofWord h).behind h.nonempty padding
  rwa [List.append_assoc] at padded

theorem isLine_sizeLine (size : ℕ) : Text.IsLine (sizeLine size) :=
  have word := Decimal.isWord_natural size
  Text.IsLine.before ⟨by decide, by decide⟩ word.trim (word.notMem rfl)

end Sample.Micro

end RunLog
