import Mathlib
import RunLog.Proofs.DecimalTexts
import RunLog.Proofs.MarkerLines
import RunLog.Proofs.MarkerReadings
import RunLog.Sample.Workload

/-!
# What the lines of a workload sample say

Each line of a sample run of a workload benchmark is read as the marker it was
written for, with the payload that was put into it, or it is chatter. Blanks
inside a signature, brackets, a second `type: ` and equals signs in the name of
a component do no harm; what does is excluded by name.
-/
namespace RunLog

theorem Text.isBlank_of_digit {c : Char} (h : c.isDigit = true) : isBlank c = false := by
  have low : 48 ≤ c.toNat ∧ c.toNat ≤ 57 := by
    rw [Char.isDigit, Bool.and_eq_true, decide_eq_true_eq, decide_eq_true_eq] at h
    exact ⟨UInt32.le_iff_toNat_le.mp h.1, UInt32.le_iff_toNat_le.mp h.2⟩
  simp only [isBlank, Bool.or_eq_false_iff, Bool.and_eq_false_iff, decide_eq_false_iff_not,
    beq_eq_false_iff_ne, ne_eq]
  omega

namespace Decimal

variable {x : Float}

theorem isWord_plain (h : x.isFinite = true) : Text.IsWord (plain x) := by
  refine ⟨fun hempty => ?_, fun c hc => ?_⟩
  · have read := read?_plain x
    rw [hempty] at read
    cases read
  · rcases plain_chars h c hc with digit | rfl | rfl
    · exact Text.isBlank_of_digit digit
    · rfl
    · rfl

theorem comma_notMem_plain (h : x.isFinite = true) : ',' ∉ plain x := by
  intro hc
  rcases plain_chars h ',' hc with digit | point | minus
  · cases digit
  · cases point
  · cases minus

theorem trim_plain (h : x.isFinite = true) : Text.trim (plain x) = plain x :=
  (isWord_plain h).trim

theorem isWord_of_readNatural? {limit n : ℕ} {t : Text} (h : readNatural? limit t = some n) :
    Text.IsWord t := by
  rw [readNatural?] at h
  split_ifs at h with hread
  obtain ⟨hdigits, -⟩ := hread
  rw [isDigits, Bool.and_eq_true, List.all_eq_true] at hdigits
  obtain ⟨hne, hall⟩ := hdigits
  have solid : ∀ c ∈ (Text.after? ['+'] t).getD t, Text.isBlank c = false :=
    fun c hc => Text.isBlank_of_digit (hall c hc)
  cases t with
  | nil => simp [Text.after?] at hne
  | cons c rest =>
      refine ⟨List.cons_ne_nil c rest, ?_⟩
      by_cases plus : '+' = c
      · subst plus
        have behind : Text.after? ['+'] ('+' :: rest) = some rest := by simp [Text.after?]
        rw [behind] at solid
        intro d hd
        rcases List.mem_cons.mp hd with rfl | hd
        · rfl
        · exact solid d hd
      · have whole : Text.after? ['+'] (c :: rest) = none := by simp [Text.after?, plus]
        rwa [whole] at solid

end Decimal

namespace Metric

theorem read_plain {x : Float} (h : x.isFinite = true) : read (Decimal.plain x) = .number x := by
  rw [read, Decimal.trim_plain h, Decimal.read?_plain x]

theorem read_name {t : Text} (trimmed : Text.trim t = t) (h : Decimal.read? t = none) :
    read t = .text t := by
  rw [read, trimmed, h]

theorem read_runTime : read "5.000".toList = .number 5 :=
  congrArg number (Float.toBits_inj.mp (by decide +kernel))

end Metric

namespace Metrics

/-- A pair gives a key its value, whatever is known already. -/
def Gives (piece key : Text) (value : Metric) : Prop :=
  ∀ metrics, readPair metrics piece = .ok (metrics.insert key value)

theorem Gives.ofTrim {piece key : Text} {value : Metric} (raw : Text)
    (h : Text.trim piece = key ++ '=' :: raw) (hkey : '=' ∉ key) (trimmed : Text.trim key = key)
    (read : Metric.read raw = value) : Gives piece key value := by
  intro metrics
  have some : (key ++ '=' :: raw).isEmpty = false := by cases key <;> rfl
  simp only [readPair, h, some, Text.cut?_append hkey, trimmed, read, Bool.false_eq_true, if_false]

theorem Gives.foldlM {piece key : Text} {value : Metric} (h : Gives piece key value)
    (metrics : Metrics) (rest : List Text) :
    (piece :: rest).foldlM readPair metrics = rest.foldlM readPair (metrics.insert key value) := by
  rw [List.foldlM_cons, h metrics]
  rfl

end Metrics

namespace Sample.Workload

def componentMetrics (name : Text) (x : Float) : Metrics :=
  (((∅ : Metrics).insert "index".toList (.text name)).insert "table_size".toList
    (.number 100000)).insert "throughput".toList (.number x)

def summaryMetrics (x : Float) : Metrics :=
  ((((∅ : Metrics).insert "txn_cnt".toList (.number 100000)).insert "abort_cnt".toList
    (.number 12)).insert "run_time".toList (.number 5)).insert "throughput".toList (.number x)

structure IsName (name : Text) : Prop where
  trimmed : Text.trim name = name
  comma : ',' ∉ name
  lineFeed : '\n' ∉ name
  notNumber : Decimal.read? name = none

def componentPairs (name : Text) (x : Float) : Text :=
  "index=".toList ++ name ++ ", table_size=100000, throughput=".toList ++ Decimal.plain x

def summaryPairs (x : Float) : Text :=
  "txn_cnt=100000, abort_cnt=12, run_time=5.000, throughput=".toList ++ Decimal.plain x

section Pairs

variable {x : Float}

theorem gives_throughput (h : x.isFinite = true) :
    Metrics.Gives (" throughput=".toList ++ Decimal.plain x) "throughput".toList (.number x) := by
  have pair : Text.trim (" throughput=".toList ++ Decimal.plain x) =
      "throughput".toList ++ '=' :: Decimal.plain x := by
    have label : Text.trim "throughput=".toList = "throughput=".toList := by decide
    change Text.trim (' ' :: ("throughput=".toList ++ Decimal.plain x)) = _
    rw [Text.trim_blank_cons rfl, Text.trim_append (by simp) label (Decimal.trim_plain h)]
    rfl
  exact .ofTrim _ pair (by decide) (by decide) (Metric.read_plain h)

theorem gives_index {name : Text} (h : IsName name) :
    Metrics.Gives ("index=".toList ++ name) "index".toList (.text name) := by
  have label : Text.trim "index=".toList = "index=".toList := by decide
  have pair : Text.trim ("index=".toList ++ name) = "index".toList ++ '=' :: name := by
    rw [Text.trim_append (by simp) label h.trimmed]
    rfl
  exact .ofTrim _ pair (by decide) (by decide) (Metric.read_name h.trimmed h.notNumber)

theorem comma_notMem_throughput (h : x.isFinite = true) :
    ',' ∉ " throughput=".toList ++ Decimal.plain x := by
  simpa using Decimal.comma_notMem_plain h

theorem read_componentPairs {name : Text} (h : IsName name) (finite : x.isFinite = true) :
    Metrics.read (componentPairs name x) = .ok (componentMetrics name x) := by
  have parts : componentPairs name x = ("index=".toList ++ name) ++ ',' ::
      (" table_size=100000".toList ++ ',' :: (" throughput=".toList ++ Decimal.plain x)) := by
    unfold componentPairs
    rw [List.append_assoc ("index=".toList ++ name)]
    exact congrArg (("index=".toList ++ name) ++ ·) rfl
  have comma : ',' ∉ "index=".toList ++ name := by simpa using h.comma
  have pieces : Text.pieces ',' (componentPairs name x) =
      ["index=".toList ++ name, " table_size=100000".toList,
        " throughput=".toList ++ Decimal.plain x] := by
    rw [parts, Text.pieces_append comma, Text.pieces_append (by decide),
      Text.pieces_single (comma_notMem_throughput finite)]
  have tableSize : Metrics.Gives " table_size=100000".toList "table_size".toList
      (.number 100000) :=
    .ofTrim "100000".toList (by decide) (by decide) (by decide) rfl
  rw [Metrics.read, pieces]
  change List.foldlM Metrics.readPair ∅ _ = _
  rw [(gives_index h).foldlM, tableSize.foldlM, (gives_throughput finite).foldlM]
  rfl

theorem read_summaryPairs (h : x.isFinite = true) :
    Metrics.read (summaryPairs x) = .ok (summaryMetrics x) := by
  have parts : summaryPairs x = "txn_cnt=100000".toList ++ ',' :: (" abort_cnt=12".toList ++
      ',' :: (" run_time=5.000".toList ++ ',' :: (" throughput=".toList ++ Decimal.plain x))) :=
    rfl
  have pieces : Text.pieces ',' (summaryPairs x) =
      ["txn_cnt=100000".toList, " abort_cnt=12".toList, " run_time=5.000".toList,
        " throughput=".toList ++ Decimal.plain x] := by
    rw [parts, Text.pieces_append (by decide), Text.pieces_append (by decide),
      Text.pieces_append (by decide), Text.pieces_single (comma_notMem_throughput h)]
  have transactions : Metrics.Gives "txn_cnt=100000".toList "txn_cnt".toList (.number 100000) :=
    .ofTrim "100000".toList (by decide) (by decide) (by decide) rfl
  have aborts : Metrics.Gives " abort_cnt=12".toList "abort_cnt".toList (.number 12) :=
    .ofTrim "12".toList (by decide) (by decide) (by decide) rfl
  have runTime : Metrics.Gives " run_time=5.000".toList "run_time".toList (.number 5) :=
    .ofTrim "5.000".toList (by decide) (by decide) (by decide) Metric.read_runTime
  rw [Metrics.read, pieces]
  change List.foldlM Metrics.readPair ∅ _ = _
  rw [transactions.foldlM, aborts.foldlM, runTime.foldlM, (gives_throughput h).foldlM]
  rfl

end Pairs

/-! ### The lines of a sample, without their line feeds -/

def announcementLine (bench : Text) : Text :=
  "Running ".toList ++ title bench ++ " workload".toList

def schemaLine (path : Text) : Text :=
  "Reading schema file: ".toList ++ path

def typeLine (bracketed : Bool) (signature : Text) : Text :=
  (if bracketed then "[ type: ".toList else "Initiating Map... [ type: ".toList) ++
    signature ++ " ]".toList

def threadsLine (threads : Text) : Text :=
  "running ".toList ++ threads ++ " threads".toList

def statsLine (name : Text) (x : Float) : Text :=
  "Per-index stats: ".toList ++ componentPairs name x

def endLine (throughput : Option Float) : Text :=
  "[summary] txn_cnt=100000, abort_cnt=12, run_time=5.000".toList ++
    match throughput with
    | some x => ", throughput=".toList ++ Decimal.plain x
    | none => []

/-- The lines before the components. -/
def headLines (s : Workload) : List Text :=
  ["mem_allocator initialized!".toList, announcementLine s.bench] ++
    s.schema.toList.map schemaLine ++ ["Workload initialized!".toList] ++
    s.signature.toList.map (typeLine s.bracketed) ++
    [threadsLine s.threads, "query_queue initialized!".toList,
      "using NO_WAIT concurrency control".toList, "WARMUP start!".toList,
      "WARMUP finished!".toList]

def lines (s : Workload) : List Text :=
  s.headLines ++ s.components.map (fun c => statsLine c.1 c.2) ++
    if s.terminated then [endLine s.throughput] else []

theorem text_eq (s : Workload) : s.text = s.lines.flatMap (· ++ ['\n']) := by
  have schema : optional (fun path => "Reading schema file: ".toList ++ path ++ ['\n']) s.schema =
      (s.schema.toList.map schemaLine).flatMap (· ++ ['\n']) := by
    cases s.schema with
    | none => rfl
    | some path => exact (List.append_nil _).symm
  have signature : optional (signatureLine s.bracketed) s.signature =
      (s.signature.toList.map (typeLine s.bracketed)).flatMap (· ++ ['\n']) := by
    cases s.signature with
    | none => rfl
    | some signature =>
        change (if s.bracketed then "[ type: ".toList else "Initiating Map... [ type: ".toList) ++
          signature ++ (" ]".toList ++ ['\n']) = _
        rw [← List.append_assoc]
        exact (List.append_nil _).symm
  have components : s.components.flatMap componentLine =
      (s.components.map fun c => statsLine c.1 c.2).flatMap (· ++ ['\n']) := by
    rw [List.flatMap_map]
    rfl
  have ending : (if s.terminated then summaryLine s.throughput else []) =
      (if s.terminated then [endLine s.throughput] else []).flatMap (· ++ ['\n']) := by
    cases s.terminated with
    | false => rfl
    | true => exact (List.append_nil _).symm
  have opening : "mem_allocator initialized!\n".toList =
      "mem_allocator initialized!".toList ++ ['\n'] := rfl
  have workload : " workload\n".toList = " workload".toList ++ ['\n'] := rfl
  have initialized : "Workload initialized!\n".toList =
      "Workload initialized!".toList ++ ['\n'] := rfl
  have threads : " threads\n".toList = " threads".toList ++ ['\n'] := rfl
  have queue : "query_queue initialized!\n".toList =
      "query_queue initialized!".toList ++ ['\n'] := rfl
  have control : "using NO_WAIT concurrency control\n".toList =
      "using NO_WAIT concurrency control".toList ++ ['\n'] := rfl
  have start : "WARMUP start!\n".toList = "WARMUP start!".toList ++ ['\n'] := rfl
  have finish : "WARMUP finished!\n".toList = "WARMUP finished!".toList ++ ['\n'] := rfl
  unfold text lines headLines announcementLine threadsLine
  rw [schema, signature, components, ending]
  simp only [opening, workload, initialized, threads, queue, control, start, finish,
    List.flatMap_append, List.flatMap_cons, List.flatMap_nil, List.append_assoc, List.append_nil]

/-! ### The markers on the lines -/

/-- The title of a benchmark begins with a word, and more words may follow. -/
theorem title_word {bench : Text} (h : Text.IsWord bench) :
    ∃ word more, title bench = word ++ more ∧ Text.IsWord word ∧
      ∀ c ∈ more.head?, Text.isBlank c = true := by
  unfold title
  split_ifs with readOnly
  · have word : Text.IsWord "READ".toList := ⟨by simp, by simp [Text.isBlank]⟩
    exact ⟨"READ".toList, " ONLY TPCC".toList, rfl, word, by simp [Text.isBlank]⟩
  · exact ⟨bench, [], (List.append_nil bench).symm, h, by simp⟩

theorem read_announcementLine {bench : Text} (h : Text.IsWord bench) :
    ∃ word, Text.word? 0 (title bench) = some word ∧
      Marker.read (announcementLine bench) = some (.benchmark word) := by
  obtain ⟨word, more, htitle, hword, next⟩ := title_word h
  have last : (more ++ " workload".toList).getLast? = some 'd' := by
    rw [List.getLast?_append]
    rfl
  have behind : ∀ c ∈ (more ++ " workload".toList).head?, Text.isBlank c = true := by
    intro c hc
    cases more with
    | nil =>
        cases hc
        rfl
    | cons d more => exact next c hc
  have line : announcementLine bench =
      "Running ".toList ++ word ++ (more ++ " workload".toList) := by
    unfold announcementLine
    simp only [htitle, List.append_assoc]
  refine ⟨word, by rw [htitle, hword.word? next], ?_⟩
  rw [line]
  exact Marker.read_of_word_between .benchmark rfl last rfl rfl behind hword rfl

theorem read_schemaLine {path : Text} (h : Text.IsWord path) :
    Marker.read (schemaLine path) = some (.schema path) :=
  Marker.Sound.read_line (m := .schema path) h nofun

theorem read_threadsLine {threads : Text} (h : Text.IsWord threads) :
    Marker.read (threadsLine threads) = some (.threads threads) :=
  Marker.Sound.read_line (m := .threads threads) h nofun

theorem read_typeLine {signature : Text} (bracketed : Bool) (hne : signature ≠ [])
    (htrim : Text.trim signature = signature) :
    Marker.read (typeLine bracketed signature) = some (.indexType signature) := by
  cases bracketed with
  | false =>
      exact Marker.read_of_signature "Initiating Map... [ type: ".toList rfl rfl hne htrim rfl rfl
  | true => exact Marker.read_of_signature "[ type: ".toList rfl rfl hne htrim rfl rfl

theorem trim_componentPairs (name : Text) {x : Float} (finite : x.isFinite = true) :
    Text.trim (componentPairs name x) = componentPairs name x := by
  have front : Text.trim ("index=".toList ++ name ++ ", table_size=100000, throughput=".toList) =
      "index=".toList ++ name ++ ", table_size=100000, throughput=".toList := by
    refine Text.trim_of_ends (show _ = some 'i' from rfl) ?_ rfl
      (show Text.isBlank '=' = false from rfl)
    rw [List.getLast?_append]
    rfl
  exact Text.trim_append (List.cons_ne_nil _ _) front (Decimal.trim_plain finite)

theorem read_statsLine (name : Text) {x : Float} (finite : x.isFinite = true) :
    Marker.read (statsLine name x) = some (.component (componentPairs name x)) :=
  Marker.Sound.read_line (m := .component (componentPairs name x))
    (trim_componentPairs name finite) nofun

theorem read_endLine {x : Float} (finite : x.isFinite = true) :
    Marker.read (endLine (some x)) = some (.summary (summaryPairs x)) := by
  have front : Text.trim "txn_cnt=100000, abort_cnt=12, run_time=5.000, throughput=".toList =
      "txn_cnt=100000, abort_cnt=12, run_time=5.000, throughput=".toList := by decide
  have pairs : Text.trim (summaryPairs x) = summaryPairs x :=
    Text.trim_append (List.cons_ne_nil _ _) front (Decimal.trim_plain finite)
  exact Marker.Sound.read_line (m := .summary (summaryPairs x)) pairs nofun

/-! ### The lines are lines of their own -/

theorem isLine_announcementLine {bench : Text} (h : Text.IsWord bench) :
    Text.IsLine (announcementLine bench) := by
  have htitle : '\n' ∉ title bench := by
    unfold title
    split_ifs
    · decide
    · exact h.notMem rfl
  have workload : Text.IsLine " workload".toList := ⟨by decide, by decide⟩
  exact workload.behind (List.cons_ne_nil _ _) (by simpa using htitle)

theorem isLine_schemaLine {path : Text} (h : Text.IsWord path) :
    Text.IsLine (schemaLine path) :=
  (Text.IsLine.ofWord h).behind h.nonempty (by decide)

theorem isLine_typeLine {signature : Text} (bracketed : Bool) (h : '\n' ∉ signature) :
    Text.IsLine (typeLine bracketed signature) := by
  have bracket : Text.IsLine " ]".toList := ⟨by decide, by decide⟩
  refine bracket.behind (List.cons_ne_nil _ _) ?_
  cases bracketed <;> simpa using h

theorem isLine_threadsLine {threads : Text} (h : Text.IsWord threads) :
    Text.IsLine (threadsLine threads) := by
  have behind : Text.IsLine " threads".toList := ⟨by decide, by decide⟩
  have solid : '\n' ∉ threads := h.notMem rfl
  exact behind.behind (List.cons_ne_nil _ _) (by simpa using solid)

theorem isLine_statsLine {name : Text} (h : IsName name) {x : Float} (finite : x.isFinite = true) :
    Text.IsLine (statsLine name x) := by
  have word := Decimal.isWord_plain finite
  have pairs : Text.IsLine (componentPairs name x) :=
    (Text.IsLine.ofWord word).behind word.nonempty (by simpa using h.lineFeed)
  exact pairs.behind (List.cons_ne_nil _ _) (by decide)

theorem isLine_endLine {x : Float} (finite : x.isFinite = true) :
    Text.IsLine (endLine (some x)) := by
  have word := Decimal.isWord_plain finite
  have throughput : Text.IsLine (", throughput=".toList ++ Decimal.plain x) :=
    (Text.IsLine.ofWord word).behind word.nonempty (by decide)
  exact throughput.behind (List.cons_ne_nil _ _) (by decide)

end Sample.Workload

end RunLog
