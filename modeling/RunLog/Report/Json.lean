import RunLog.Report.Node

/-!
# JSON

Nodes in JSON, over several lines, with two spaces for each level. Doubles are
written with the fewest digits that read back, and always look like doubles: a
whole number keeps `.0`. A double that is no finite number is written `null`.
-/
namespace RunLog.Json

def layout : Decimal.Layout :=
  { tie := .even
    plain := some (-5, 16)
    wholeMark := ".0".toList
    powerPlus := ['+']
    notANumber := "null".toList
    infinity := "null".toList
    minusInfinity := "null".toList }

/-- How one character stands in a string. -/
def escaped (c : Char) : Text :=
  if c = '"' then ['\\', '"']
  else if c = '\\' then ['\\', '\\']
  else if c = '\n' then ['\\', 'n']
  else if c = '\r' then ['\\', 'r']
  else if c = '\t' then ['\\', 't']
  else if c.toNat = 8 then ['\\', 'b']
  else if c.toNat = 12 then ['\\', 'f']
  else if c.toNat < 32 then
    '\\' :: 'u' :: Decimal.padZeros 4 (Text.hexadecimal c.toNat)
  else [c]

def string (t : Text) : Text :=
  '"' :: (t.flatMap escaped ++ ['"'])

/-- A new line, indented to a level. -/
def newLine (level : Nat) : Text :=
  '\n' :: List.replicate (2 * level) ' '

mutual

/-- A node whose lines after the first stand at a level. -/
def write (level : Nat) : Node → Text
  | .null => "null".toList
  | .natural n => Decimal.natural n
  | .real x => layout.write x
  | .text t => string t
  | .sequence [] => "[]".toList
  | .sequence (item :: items) =>
      '[' :: (newLine (level + 1) ++ write (level + 1) item ++
        writeItems level items ++ newLine level ++ [']'])
  | .mapping [] => "\x7b\x7d".toList
  | .mapping ((key, node) :: fields) =>
      '\x7b' :: (newLine (level + 1) ++ string key ++ ": ".toList ++ write (level + 1) node ++
        writeFields level fields ++ newLine level ++ ['\x7d'])

/-- The items of a sequence after its first. -/
def writeItems (level : Nat) : List Node → Text
  | [] => []
  | item :: items =>
      ',' :: (newLine (level + 1) ++ write (level + 1) item ++ writeItems level items)

/-- The fields of a mapping after its first. -/
def writeFields (level : Nat) : List (Text × Node) → Text
  | [] => []
  | (key, node) :: fields =>
      ',' :: (newLine (level + 1) ++ string key ++ ": ".toList ++ write (level + 1) node ++
        writeFields level fields)

end

def document (node : Node) : Text :=
  write 0 node

end RunLog.Json
