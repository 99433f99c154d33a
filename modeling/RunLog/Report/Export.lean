import RunLog.Report.Csv
import RunLog.Report.Json
import RunLog.Report.Yaml

/-!
# Exports of records

All records in one of three formats. The two structured formats hold everything
that a record knows; a CSV row holds its headline figures, and an absent figure
is an empty field. Without records there is no CSV header either.
-/
namespace RunLog

inductive Format where
  | json
  | yaml
  | csv
  deriving DecidableEq, Repr

namespace Export

/-- The columns of a CSV export. -/
def columns : List Text :=
  ["kind", "variant", "threads", "throughput", "workload_mix", "initial_size",
    "expected_final_size", "schema_file", "close_to_max"].map String.toList

/-- The field of a figure that may be absent. -/
def optional {α : Type} (field : α → Text) : Option α → Text
  | some a => field a
  | none => []

def fields (r : Record) : List Text :=
  [r.kind.name, r.variant.label, Decimal.natural r.threads, Csv.layout.write r.throughput,
    optional Decimal.natural r.workloadMix, optional Decimal.natural r.initialSize,
    optional Decimal.natural r.expectedFinalSize, optional id r.schemaFile,
    optional Csv.layout.write r.closeToMax]

def rows (records : List Record) : List (List Text) :=
  if records.isEmpty then [] else columns :: records.map fields

def render (format : Format) (records : List Record) : Text :=
  match format with
  | .json => Json.document (Node.ofRecords records) ++ ['\n']
  | .yaml => Yaml.document (Node.ofRecords records)
  | .csv => Csv.document (rows records)

end Export

/-- A chart in JSON, as it is kept in a file. -/
def Chart.json (c : Chart) : Text :=
  Json.document (Node.ofChart c)

end RunLog
