/-!
# Doubles as exact numbers

A finite double is a whole number times a power of two. Both are read off the
64 bits: one sign bit, eleven exponent bits and 52 fraction bits. This module
also gives the total order of doubles by their bits, in which the negative
zero lies directly below the positive one.
-/
namespace RunLog.Decimal

def isNegative (x : Float) : Bool :=
  Nat.pow 2 63 ≤ x.toBits.toNat

def exponentBits (x : Float) : Nat :=
  x.toBits.toNat / Nat.pow 2 52 % Nat.pow 2 11

def fractionBits (x : Float) : Nat :=
  x.toBits.toNat % Nat.pow 2 52

/-- A magnitude `mantissa · 2 ^ exponent`; `narrowBelow` tells that the next smaller double
is only half as far away as the next larger one. -/
structure Magnitude where
  mantissa : Nat
  exponent : Int
  narrowBelow : Bool
  deriving DecidableEq, Repr

/-- The magnitude of a finite double. -/
def magnitude (x : Float) : Magnitude :=
  if exponentBits x = 0 then ⟨fractionBits x, -1074, false⟩
  else
    { mantissa := fractionBits x + Nat.pow 2 52
      exponent := (exponentBits x : Int) - 1075
      narrowBelow := fractionBits x = 0 ∧ 1 < exponentBits x }

/-- The place of a double in the total order, as a whole number. -/
def place (x : Float) : Nat :=
  let bits := x.toBits.toNat
  if bits < Nat.pow 2 63 then bits + Nat.pow 2 63 else Nat.pow 2 64 - 1 - bits

/-- The total order: the numeric order, refined to tell the two zeros apart. -/
def totalLE (a b : Float) : Bool :=
  place a ≤ place b

end RunLog.Decimal
