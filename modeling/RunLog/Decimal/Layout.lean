import RunLog.Decimal.Rounding
import RunLog.Decimal.Shortest

/-!
# Layouts of the shortest digits

A layout says how the shortest digits of a double become text: where the point
may stand without a power of ten, whether a whole number keeps `.0`, how a
positive power is marked, and what stands for the doubles that are no numbers.
With digits `d₁ d₂ … dₙ` the position of the point is the `p` for which the
value is `0.d₁d₂…dₙ · 10 ^ p`.
-/
namespace RunLog.Decimal

structure Layout where
  tie : Tie
  /-- The positions `low < p ≤ high` are written without a power of ten; `none` admits all. -/
  plain : Option (Int × Int)
  wholeMark : Text
  powerPlus : Text
  notANumber : Text
  infinity : Text
  minusInfinity : Text

/-- Whether the point position is written without a power of ten. -/
def Layout.isPlain (l : Layout) (p : Int) : Bool :=
  match l.plain with
  | none => true
  | some (low, high) => low < p && p ≤ high

/-- Digits with the point at position `p`, filled up with zeros. -/
def Layout.plainText (l : Layout) (digits : Text) (p : Int) : Text :=
  if p ≤ 0 then "0.".toList ++ List.replicate (-p).toNat '0' ++ digits
  else if digits.length ≤ p.toNat then
    digits ++ List.replicate (p.toNat - digits.length) '0' ++ l.wholeMark
  else digits.take p.toNat ++ '.' :: digits.drop p.toNat

/-- One digit before the point, and a power of ten. -/
def Layout.powerText (l : Layout) (digits : Text) (p : Int) : Text :=
  let fraction := digits.drop 1
  let power := p - 1
  digits.take 1 ++ (if fraction.isEmpty then [] else '.' :: fraction) ++
    'e' :: (if power < 0 then ['-'] else l.powerPlus) ++ natural power.natAbs

/-- The text of a positive magnitude. -/
def Layout.magnitudeText (l : Layout) (m : Magnitude) : Text :=
  let short := shortest l.tie m
  let digits := natural short.digits
  let p := digits.length + short.exponent
  if l.isPlain p then l.plainText digits p else l.powerText digits p

def Layout.write (l : Layout) (x : Float) : Text :=
  if x.isNaN then l.notANumber
  else if x.isInf then if isNegative x then l.minusInfinity else l.infinity
  else
    let m := magnitude x
    signed x (if m.mantissa = 0 then '0' :: l.wholeMark else l.magnitudeText m)

/-- Messages and labels: never a power of ten, whole numbers without a point. -/
def plainLayout : Layout :=
  { tie := .up
    plain := none
    wholeMark := []
    powerPlus := []
    notANumber := "NaN".toList
    infinity := "inf".toList
    minusInfinity := "-inf".toList }

/-- A double as messages and labels show it. -/
def plain (x : Float) : Text :=
  plainLayout.write x

end RunLog.Decimal
