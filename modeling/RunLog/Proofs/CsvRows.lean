import Mathlib
import RunLog.Proofs.DecimalTexts
import RunLog.Report.Export

/-!
# Rows of a CSV document read back

Rows are read character by character. A comma ends a field and a line feed ends a row,
unless a quote has opened the field; then everything belongs to the field up to the next
quote that is not doubled. Nothing but an end may stand behind that quote, and a field
without quotes holds neither a quote nor a carriage return. What is refused is no
document at all, as is a text that ends in the middle of a row.

Reading a written field leaves the reader behind its last character, wherever the field
stands (`Csv.scan_field`), so a written document reads back row by row
(`Csv.rows?_document`), and an export as one row for each record.
-/
namespace RunLog

namespace Csv

inductive Place where
  | opening
  | bare
  | quoted
  /-- Behind a quote that ends the field, unless it is doubled. -/
  | behindQuote
  deriving DecidableEq, Repr

structure Scan where
  rows : List (List Text)
  row : List Text
  field : Text
  place : Place
  deriving DecidableEq, Repr

namespace Scan

def start : Scan :=
  ⟨[], [], [], .opening⟩

def add (s : Scan) (c : Char) (place : Place) : Scan :=
  { s with field := s.field ++ [c], place }

def endField (s : Scan) : Scan :=
  { s with row := s.row ++ [s.field], field := [], place := .opening }

def endRow (s : Scan) : Scan :=
  ⟨s.rows ++ [s.row ++ [s.field]], [], [], .opening⟩

/-- Reads what may stand behind a field: the end of it, or of its row. -/
def separate? (s : Scan) (c : Char) : Option Scan :=
  if c = ',' then some s.endField else if c = '\n' then some s.endRow else none

/-- Reads a character of a field without quotes, or what stands behind the field. -/
def bare? (s : Scan) (c : Char) : Option Scan :=
  if c = ',' ∨ c = '\n' then s.separate? c
  else if c = '"' ∨ c = '\r' then none
  else some (s.add c .bare)

def step? (s : Scan) (c : Char) : Option Scan :=
  match s.place with
  | .opening => if c = '"' then some { s with place := .quoted } else s.bare? c
  | .bare => s.bare? c
  | .quoted => some (if c = '"' then { s with place := .behindQuote } else s.add c .quoted)
  | .behindQuote => if c = '"' then some (s.add c .quoted) else s.separate? c

end Scan

def rows? (t : Text) : Option (List (List Text)) :=
  (t.foldlM Scan.step? Scan.start).bind fun s =>
    if s.row = [] ∧ s.place = .opening then some s.rows else none

section Scanning

variable (rows : List (List Text)) (row : List Text)

theorem scan_quoted (t read : Text) :
    (t.flatMap quotedChar).foldlM Scan.step? ⟨rows, row, read, .quoted⟩ =
      some ⟨rows, row, read ++ t, .quoted⟩ := by
  induction t generalizing read with
  | nil => simp
  | cons c t ih =>
      have step : (quotedChar c).foldlM Scan.step? ⟨rows, row, read, .quoted⟩ =
          some ⟨rows, row, read ++ [c], .quoted⟩ := by
        rw [quotedChar]
        split_ifs with quote
        · rw [quote]
          rfl
        · simp [Scan.step?, Scan.add, quote]
      rw [List.flatMap_cons, List.foldlM_append, step]
      exact (ih (read ++ [c])).trans (by rw [List.append_assoc, List.singleton_append])

theorem scan_bare {t : Text} (h : ∀ c ∈ t, needsQuotes c = false) (read : Text) :
    t.foldlM Scan.step? ⟨rows, row, read, .bare⟩ = some ⟨rows, row, read ++ t, .bare⟩ := by
  induction t generalizing read with
  | nil => simp
  | cons c t ih =>
      rw [List.forall_mem_cons] at h
      have step : Scan.step? ⟨rows, row, read, .bare⟩ c =
          some ⟨rows, row, read ++ [c], .bare⟩ := by
        have plain := h.1
        simp only [needsQuotes, Bool.or_eq_false_iff, decide_eq_false_iff_not] at plain
        simp [Scan.step?, Scan.bare?, Scan.add, plain]
      rw [List.foldlM_cons, step]
      exact (ih h.2 (read ++ [c])).trans (by rw [List.append_assoc, List.singleton_append])

/-- A written field is read as it was, wherever it stands, and can end where it ends. -/
theorem scan_field (t : Text) : ∃ place, place ≠ .quoted ∧
    (field t).foldlM Scan.step? ⟨rows, row, [], .opening⟩ = some ⟨rows, row, t, place⟩ := by
  rw [field]
  split_ifs with h
  · refine ⟨.behindQuote, by simp, ?_⟩
    have inside := scan_quoted rows row t []
    rw [List.foldlM_cons]
    change (t.flatMap quotedChar ++ ['"']).foldlM Scan.step? ⟨rows, row, [], .quoted⟩ = _
    rw [List.foldlM_append, inside]
    rfl
  · have plain : ∀ c ∈ t, needsQuotes c = false := by simpa using h
    cases t with
    | nil => exact ⟨.opening, by simp, rfl⟩
    | cons c t =>
        refine ⟨.bare, by simp, ?_⟩
        have first : Scan.step? ⟨rows, row, [], .opening⟩ c =
            Scan.step? ⟨rows, row, [], .bare⟩ c := by
          have quote : c ≠ '"' := by
            rintro rfl
            exact absurd (plain '"' List.mem_cons_self) (by decide)
          simp only [Scan.step?, quote, if_false]
          rfl
        rw [List.foldlM_cons, first, ← List.foldlM_cons]
        exact scan_bare rows row plain []

theorem step?_end (t : Text) {place : Place} (h : place ≠ .quoted) :
    Scan.step? ⟨rows, row, t, place⟩ ',' = some ⟨rows, row ++ [t], [], .opening⟩ ∧
      Scan.step? ⟨rows, row, t, place⟩ '\n' = some ⟨rows ++ [row ++ [t]], [], [], .opening⟩ := by
  cases place with
  | quoted => exact absurd rfl h
  | _ => exact ⟨rfl, rfl⟩

theorem scan_row {fields : List Text} (hne : fields ≠ []) :
    (Csv.row fields).foldlM Scan.step? ⟨rows, row, [], .opening⟩ =
      some ⟨rows ++ [row ++ fields], [], [], .opening⟩ := by
  induction fields generalizing row with
  | nil => exact absurd rfl hne
  | cons t rest ih =>
      obtain ⟨place, ended, scanned⟩ := scan_field rows row t
      obtain ⟨comma, lineFeed⟩ := step?_end rows row t ended
      cases rest with
      | nil => simp [Csv.row, Text.join, scanned, lineFeed]
      | cons next more =>
          have shape : Csv.row (t :: next :: more) = field t ++ ',' :: Csv.row (next :: more) := by
            simp [Csv.row, Text.join]
          simp [shape, scanned, comma, ih (row ++ [t])]

theorem scan_document {all : List (List Text)} (h : ∀ fields ∈ all, fields ≠ []) :
    (document all).foldlM Scan.step? ⟨rows, [], [], .opening⟩ =
      some ⟨rows ++ all, [], [], .opening⟩ := by
  induction all generalizing rows with
  | nil => simp [document]
  | cons fields rest ih =>
      rw [List.forall_mem_cons] at h
      rw [document, List.flatMap_cons, List.foldlM_append, scan_row rows [] h.1]
      exact (ih (rows ++ [fields]) h.2).trans (by simp)

end Scanning

/-- A written document reads back as its rows, if none of them is without fields. -/
theorem rows?_document {all : List (List Text)} (h : ∀ fields ∈ all, fields ≠ []) :
    rows? (document all) = some all := by
  rw [rows?, Scan.start, scan_document [] h]
  rfl

theorem legible_layout : layout.Legible :=
  ⟨.inr rfl, .inl rfl⟩

end Csv

namespace Export

/-- An export in rows reads back: as nothing without records, and otherwise as the names of the
nine columns and one row of nine fields for each record, in the order of the records. An absent
value is an empty field, and the numbers of a row read back from their fields. -/
theorem csv_reads_back (records : List Record) :
    Csv.rows? (render .csv records) =
      some (if records.isEmpty then []
        else ["kind", "variant", "threads", "throughput", "workload_mix", "initial_size",
            "expected_final_size", "schema_file", "close_to_max"].map String.toList ::
          records.map fun r =>
            [r.kind.name, r.variant.label, Decimal.natural r.threads,
              Csv.layout.write r.throughput, r.workloadMix.elim [] Decimal.natural,
              r.initialSize.elim [] Decimal.natural, r.expectedFinalSize.elim [] Decimal.natural,
              r.schemaFile.elim [] id, r.closeToMax.elim [] Csv.layout.write]) ∧
    (∀ limit n, n < limit → Decimal.readNatural? limit (Decimal.natural n) = some n) ∧
    ∀ x : Float, x.isFinite = true → Decimal.read? (Csv.layout.write x) = some x := by
  refine ⟨?_, fun _ _ => Decimal.readNatural?_natural,
    fun _ => Decimal.read?_write Csv.legible_layout⟩
  have some_fields : ∀ fields ∈ rows records, fields ≠ [] := by
    unfold rows
    split_ifs
    · simp
    · refine List.forall_mem_cons.mpr ⟨by decide, List.forall_mem_map.mpr fun r _ => ?_⟩
      simp [fields]
  have same {α : Type} (field : α → Text) (a : Option α) : optional field a = a.elim [] field := by
    cases a <;> rfl
  rw [render, Csv.rows?_document some_fields, rows]
  refine congrArg some (if_congr Iff.rfl rfl (congrArg _ (List.map_congr_left fun r _ => ?_)))
  simp only [fields, same]

/-- Two runs with names that need quotes. -/
def quotedNames : List Record :=
  let run (kind : String) (details : Details) : Record :=
    { kind := .other kind.toList
      variant := ⟨"(a,b)".toList, none⟩
      threads := 8
      throughput := 1.5
      summary := ∅
      details := details
      closeToMax := none }
  [run "one\r\ntwo" (.workload (some "\"x\",".toList) ∅), run "MICRO" (.micro 50 0 7 ∅)]

theorem csv_reads_back_quotedNames :
    Csv.rows? (render .csv quotedNames) =
      some ([["kind", "variant", "threads", "throughput", "workload_mix", "initial_size",
          "expected_final_size", "schema_file", "close_to_max"],
        ["one\r\ntwo", "(a,b) (None)", "8", "1.5", "", "", "", "\"x\",", ""],
        ["MICRO", "(a,b) (None)", "8", "1.5", "50", "0", "7", "", ""]].map
          (·.map String.toList)) ∧
    8 < Decimal.wordLimit ∧
    Decimal.readNatural? Decimal.wordLimit (Decimal.natural 8) = some 8 ∧
    (1.5 : Float).isFinite = true ∧
    Decimal.read? (Csv.layout.write 1.5) = some 1.5 := by
  obtain ⟨read, naturals, reals⟩ := csv_reads_back quotedNames
  have small : 8 < Decimal.wordLimit := by decide
  have finite : (1.5 : Float).isFinite = true := by rfl
  have number : Csv.layout.write 1.5 = "1.5".toList := by decide +kernel
  refine ⟨read.trans ?_, small, naturals _ 8 small, finite, reals 1.5 finite⟩
  simp only [quotedNames, List.map_cons, List.map_nil, number]
  rfl

end Export

end RunLog
