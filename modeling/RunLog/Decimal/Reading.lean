import RunLog.Decimal.Natural

/-!
# Reading decimal notation

A sign, then a special word in any case, or digits with an optional point and
an optional power of ten. The exact decimal is rounded to the nearest double,
so a reader and a writer agree on every double.
-/
namespace RunLog.Decimal

/-- An exact decimal `mantissa · 10 ^ exponent`. -/
structure Scientific where
  mantissa : Nat
  exponent : Int
  deriving DecidableEq, Repr

/-- The nearest double; a tie goes to the even mantissa. -/
def Scientific.toFloat (s : Scientific) : Float :=
  Float.ofScientific s.mantissa (s.exponent < 0) s.exponent.natAbs

/-- Takes a sign off the front; the flag tells a minus sign. -/
def splitSign : Text → Bool × Text
  | '-' :: t => (true, t)
  | '+' :: t => (false, t)
  | t => (false, t)

/-- Reads a power of ten after its mark: a sign and one or more digits. -/
def readExponent? (t : Text) : Option Int :=
  let (negative, digits) := splitSign t
  if isDigits digits then
    some (if negative then -(ofDigits digits : Int) else ofDigits digits)
  else none

/-- Reads what may follow the digits: nothing, or a power of ten. -/
def readPower? : Text → Option Int
  | [] => some 0
  | c :: t => if c = 'e' ∨ c = 'E' then readExponent? t else none

/-- Reads digits with an optional point and an optional power of ten; there must be a digit
on one side of the point. -/
def readScientific? (t : Text) : Option Scientific :=
  let whole := t.takeWhile Char.isDigit
  let behind := t.dropWhile Char.isDigit
  let behindPoint := (Text.after? ['.'] behind).getD []
  let hasPoint := Text.startsWith ['.'] behind
  let fraction := behindPoint.takeWhile Char.isDigit
  let rest := if hasPoint then behindPoint.dropWhile Char.isDigit else behind
  if whole.isEmpty && fraction.isEmpty then none
  else
    (readPower? rest).map fun power =>
      ⟨ofDigits (whole ++ fraction), power - fraction.length⟩

/-- The doubles that are not numbers on the line, by name. -/
def readSpecial? (t : Text) : Option Float :=
  let word := t.map Char.toLower
  if word = "inf".toList ∨ word = "infinity".toList then some (1.0 / 0.0)
  else if word = "nan".toList then some (0.0 / 0.0)
  else none

def read? (t : Text) : Option Float :=
  let (negative, size) := splitSign t
  ((readSpecial? size).or ((readScientific? size).map Scientific.toFloat)).map fun x =>
    if negative then -x else x

end RunLog.Decimal
