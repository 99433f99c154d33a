import RunLog.Decimal.Layout
import RunLog.Decimal.Reading
import RunLog.Text.Quoted
import RunLog.Text.Utf8

/-!
# YAML scalars

How a text stands in a YAML document. A text that would read as something else,
or that starts or breaks a construct of the notation, is put between single
quotes; one with an unprintable character between double quotes; one with line
feeds becomes a literal block. Everything else stands as it is. Lines are never
folded.
-/
namespace RunLog.Yaml

def layout : Decimal.Layout :=
  { tie := .even
    plain := some (-5, 16)
    wholeMark := ".0".toList
    powerPlus := []
    notANumber := ".nan".toList
    infinity := ".inf".toList
    minusInfinity := "-.inf".toList }

/-- The words that read as a truth value or as nothing. -/
def reservedWords : List Text :=
  ["", "~", "null", "Null", "NULL", "true", "True", "TRUE", "false", "False", "FALSE"].map
    String.toList

/-- Takes one plus or minus sign off the front. -/
def dropSign (t : Text) : Text :=
  (Decimal.splitSign t).2

/-- Whether a text is a zero in front of more digits, which does not read as a number. -/
def isPaddedNumber (t : Text) : Bool :=
  match dropSign t with
  | '0' :: c :: rest => (c :: rest).all Char.isDigit
  | _ => false

/-- The value of a digit in bases up to sixteen. -/
def digitValue? (c : Char) : Option Nat :=
  if c.isDigit then some (c.toNat - '0'.toNat)
  else if 'a' ≤ c ∧ c ≤ 'f' then some (c.toNat - 'a'.toNat + 10)
  else if 'A' ≤ c ∧ c ≤ 'F' then some (c.toNat - 'A'.toNat + 10)
  else none

/-- Reads one more digit of a number. -/
def addDigit (base n : Nat) (c : Char) : Option Nat :=
  match digitValue? c with
  | some d => if d < base then some (n * base + d) else none
  | none => none

def readDigits? (base : Nat) (t : Text) : Option Nat :=
  if t.isEmpty then none else t.foldlM (addDigit base) 0

/-- The bases and their marks. -/
def basedDigits? (t : Text) : Option Nat :=
  match t with
  | '0' :: 'x' :: rest => readDigits? 16 rest
  | '0' :: 'o' :: rest => readDigits? 8 rest
  | '0' :: 'b' :: rest => readDigits? 2 rest
  | _ => readDigits? 10 t

/-- Whether a text reads as a whole number of at most 128 bits. -/
def isWhole (t : Text) : Bool :=
  let limit := if t.head? = some '-' then Nat.pow 2 127 + 1 else Nat.pow 2 128
  !isPaddedNumber t && (basedDigits? (dropSign t)).any (· < limit)

/-- Whether a text reads as a double: a special word, or decimal notation with a finite
value. -/
def isReal (t : Text) : Bool :=
  let infinities := [".inf", ".Inf", ".INF"].map String.toList
  let notNumbers := [".nan", ".NaN", ".NAN"].map String.toList
  infinities.contains (dropSign t) || notNumbers.contains t ||
    (Decimal.read? t).any Float.isFinite

/-- Whether a text would read as something other than text. -/
def readsOtherwise (t : Text) : Bool :=
  reservedWords.contains t || isPaddedNumber t || isWhole t || isReal t

/-- The characters that end a line. -/
def isBreak (c : Char) : Bool :=
  [0x0A, 0x0D, 0x85, 0x2028, 0x2029].contains c.toNat

/-- The characters that need an escape. -/
def isUnprintable (c : Char) : Bool :=
  let n := c.toNat
  (n < 0x20 && n ≠ 10) || (0x7F ≤ n && n ≤ 0x9F) || n == 0xFEFF || n == 0xFFFE || n == 0xFFFF

/-- Whether what follows a character is blank or nothing. -/
def endsWord : Text → Bool
  | [] => true
  | c :: _ => c = ' ' || isBreak c

/-- Whether a text begins like a construct of the notation. -/
def opensConstruct : Text → Bool
  | [] => false
  | c :: rest =>
      "#,[]\x7b\x7d&*!|>'\"%@`".toList.contains c ||
        ((c = '?' || c = ':' || c = '-') && endsWord rest) ||
        Text.startsWith "---".toList (c :: rest) || Text.startsWith "...".toList (c :: rest)

/-- Whether a text behind its first character holds a mark that ends a key or begins a
remark. -/
def holdsMark : Text → Bool
  | c :: d :: rest =>
      (d = ':' && endsWord rest) || (d = '#' && endsWord [c]) || holdsMark (d :: rest)
  | _ => false

/-- Whether a space and the end of a line stand side by side. -/
def spaceMeetsBreak : Text → Bool
  | c :: d :: rest =>
      (c = ' ' && isBreak d) || (isBreak c && d = ' ') || spaceMeetsBreak (d :: rest)
  | _ => false

/-- Whether a space stands right before the end of a line or of the text. -/
def spaceBeforeEnd : Text → Bool
  | [] => false
  | [c] => c = ' '
  | c :: d :: rest => (c = ' ' && isBreak d) || spaceBeforeEnd (d :: rest)

inductive Style where
  | plain
  | single
  | double
  | literal
  deriving DecidableEq, Repr

def style (t : Text) : Style :=
  if t.any isUnprintable then .double
  else if t.any (· == '\n') then if spaceBeforeEnd t then .double else .literal
  else if spaceMeetsBreak t then .double
  else if readsOtherwise t || opensConstruct t || holdsMark t || t.any isBreak ||
      t.head? = some ' ' || t.getLast? = some ' ' then .single
  else .plain

/-- Text between single quotes; behind the end of a line it goes on at the indentation. -/
def singleBody (indent : Nat) : (afterBreak : Bool) → Text → Text
  | afterBreak, [] => if afterBreak then List.replicate indent ' ' else []
  | afterBreak, c :: t =>
      if isBreak c then c :: singleBody indent true t
      else
        (if afterBreak then List.replicate indent ' ' else []) ++
          (if c = '\'' then ['\'', '\''] else [c]) ++ singleBody indent false t

/-- A number of `width` digits in upper-case hexadecimal. -/
def upperHexadecimal (width n : Nat) : Text :=
  Decimal.padZeros width ((Text.hexadecimal n).map Char.toUpper)

/-- The short escapes. -/
def shortEscape? (n : Nat) : Option Char :=
  [(0, '0'), (7, 'a'), (8, 'b'), (9, 't'), (10, 'n'), (11, 'v'), (12, 'f'), (13, 'r'),
    (27, 'e'), (34, '"'), (92, '\\'), (0x85, 'N'), (0x2028, 'L'), (0x2029, 'P')].lookup n

/-- How one character stands between double quotes. -/
def doubleChar (c : Char) : Text :=
  match shortEscape? c.toNat with
  | some e => ['\\', e]
  | none =>
      if !isUnprintable c then [c]
      else if c.toNat ≤ 0xFF then '\\' :: 'x' :: upperHexadecimal 2 c.toNat
      else '\\' :: 'u' :: upperHexadecimal 4 c.toNat

/-- The lines of a literal block, each with the indentation in front; empty lines have none. -/
def literalBody (indent : Nat) : (afterBreak : Bool) → Text → Text
  | _, [] => []
  | afterBreak, c :: t =>
      if isBreak c then c :: literalBody indent true t
      else
        (if afterBreak then List.replicate indent ' ' else []) ++
          c :: literalBody indent false t

/-- What a literal block says about its first and last lines. -/
def literalHints (t : Text) : Text :=
  let lead := if endsWord t then ['2'] else []
  let tail :=
    match t.reverse with
    | [] => ['-']
    | [c] => if isBreak c then ['+'] else ['-']
    | c :: d :: _ => if !isBreak c then ['-'] else if isBreak d then ['+'] else []
  lead ++ tail

/-- A text as it stands in a document; further lines of it are indented. -/
def scalar (indent : Nat) (t : Text) : Text :=
  match style t with
  | .plain => t
  | .single => '\'' :: (singleBody indent false t ++ ['\''])
  | .double => '"' :: (t.flatMap doubleChar ++ ['"'])
  | .literal => '|' :: (literalHints t ++ '\n' :: literalBody indent true t)

/-- Whether a text can be a key on a line of its own: short enough, and without the end of a
line. -/
def isSimpleKey (t : Text) : Bool :=
  Utf8.size t ≤ 128 && !t.any isBreak

end RunLog.Yaml
