import RunLog.Text.Search

/-!
# Whole numbers in decimal

Writing without leading zeros, and reading a number that has to stay below a
limit. Only the ASCII digits count; a plus sign may stand in front, a minus
sign may not, not even before zero.
-/
namespace RunLog.Decimal

/-- The limit of thread counts and workload shares. -/
def wordLimit : Nat := Nat.pow 2 32

/-- The limit of sizes. -/
def sizeLimit : Nat := Nat.pow 2 64

/-- The decimal digits of a number, most significant first. -/
def natural (n : Nat) : Text :=
  Nat.toDigits 10 n

/-- The number that a row of digits spells. -/
def ofDigits (digits : Text) : Nat :=
  digits.foldl (fun n c => n * 10 + (c.toNat - '0'.toNat)) 0

/-- Whether a text is a row of one or more digits. -/
def isDigits (t : Text) : Bool :=
  !t.isEmpty && t.all Char.isDigit

/-- Reads a number below `limit`. -/
def readNatural? (limit : Nat) (t : Text) : Option Nat :=
  let digits := (Text.after? ['+'] t).getD t
  if isDigits digits ∧ ofDigits digits < limit then some (ofDigits digits) else none

end RunLog.Decimal
