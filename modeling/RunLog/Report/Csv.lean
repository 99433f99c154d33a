import RunLog.Decimal.Layout
import RunLog.Text.Search

/-!
# CSV

Rows of fields, separated by commas and ended by a line feed. A field that holds
a comma, a quote or the end of a line is put between quotes, and its quotes are
doubled.
-/
namespace RunLog.Csv

def layout : Decimal.Layout :=
  { tie := .even
    plain := some (-5, 16)
    wholeMark := ".0".toList
    powerPlus := []
    notANumber := "NaN".toList
    infinity := "inf".toList
    minusInfinity := "-inf".toList }

/-- Whether a field with this character has to be quoted. -/
def needsQuotes (c : Char) : Bool :=
  c = ',' || c = '"' || c = '\n' || c = '\r'

/-- How one character stands between quotes. -/
def quotedChar (c : Char) : Text :=
  if c = '"' then ['"', '"'] else [c]

def field (t : Text) : Text :=
  if t.any needsQuotes then '"' :: (t.flatMap quotedChar ++ ['"']) else t

def row (fields : List Text) : Text :=
  Text.join ',' (fields.map field) ++ ['\n']

def document (rows : List (List Text)) : Text :=
  rows.flatMap row

end RunLog.Csv
