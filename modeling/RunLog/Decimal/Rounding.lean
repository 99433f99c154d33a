import RunLog.Decimal.Binary
import RunLog.Decimal.Natural

/-!
# Rounding to a fixed number of places

The exact value of a double is a fraction, so it is rounded in whole numbers:
to the nearest multiple of the last place, and from the middle between two to
the even one.
-/
namespace RunLog.Decimal

/-- `num / den` to the nearest whole number, from the middle to the even one. -/
def roundDiv (num den : Nat) : Nat :=
  let down := num / den
  match compare (2 * (num % den)) den with
  | .lt => down
  | .gt => down + 1
  | .eq => if down % 2 = 0 then down else down + 1

/-- The magnitude of a finite double in units of `10 ^ -places`, rounded. -/
def roundedUnits (places : Nat) (x : Float) : Nat :=
  let m := magnitude x
  roundDiv (m.mantissa * Nat.pow 10 places * Nat.pow 2 m.exponent.toNat)
    (Nat.pow 2 (-m.exponent).toNat)

/-- Fills up with zeros on the left. -/
def padZeros (width : Nat) (digits : Text) : Text :=
  List.replicate (width - digits.length) '0' ++ digits

/-- A sign for the negative doubles, negative zero among them. -/
def signed (x : Float) (unsigned : Text) : Text :=
  if isNegative x then '-' :: unsigned else unsigned

/-- A double with a fixed number of places, at least one, behind the point. -/
def fixed (places : Nat) (x : Float) : Text :=
  if x.isNaN then "NaN".toList
  else if x.isInf then signed x "inf".toList
  else
    let units := roundedUnits places x
    let one := Nat.pow 10 places
    signed x (natural (units / one) ++ '.' :: padZeros places (natural (units % one)))

end RunLog.Decimal
