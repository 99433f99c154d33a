import RunLog.Decimal.Binary

/-!
# The shortest decimal of a double

The decimals that read back as a given double fill an interval around it, whose
ends lie in the middle between the double and its neighbours. The ends belong
to it when the mantissa is even, because reading rounds a tie to the even
mantissa. The shortest of these decimals lies on the coarsest grid of steps
`10 ^ k` that meets the interval, and if a grid meets it, one of the two grid
points next to the double does. Everything is computed in whole numbers.
-/
namespace RunLog.Decimal

/-- Which of two equally near decimals is taken. -/
inductive Tie where
  | even
  | up
  deriving DecidableEq, Repr

/-- A decimal `digits · 10 ^ exponent`. -/
structure Short where
  digits : Nat
  exponent : Int
  deriving DecidableEq, Repr

/-- Four times the magnitude over the grid step `10 ^ k`, as numerator and denominator of
the factor behind the mantissa. -/
def gridFactor (m : Magnitude) (k : Int) : Nat × Nat :=
  let q := m.exponent - 2
  (Nat.pow 2 q.toNat * Nat.pow 10 (-k).toNat, Nat.pow 2 (-q).toNat * Nat.pow 10 k.toNat)

/-- Whether the grid point `d · 10 ^ k` reads back as the double. -/
def readsBack (m : Magnitude) (k : Int) (d : Nat) : Bool :=
  let (num, den) := gridFactor m k
  let low := (4 * m.mantissa - if m.narrowBelow then 1 else 2) * num
  let high := (4 * m.mantissa + 2) * num
  if m.mantissa % 2 = 0 then low ≤ d * den && d * den ≤ high
  else low < d * den && d * den < high

/-- Whether the grid point above is taken: it is nearer than the one below, `rest / den`
under the value, or the tie goes to it. -/
def takesUp (tie : Tie) (down rest den : Nat) : Bool :=
  match compare (2 * rest) den with
  | .lt => false
  | .gt => true
  | .eq => tie == .up || down % 2 == 1

/-- The grid point next to the double that reads back; of two the nearer one. -/
def onGrid? (tie : Tie) (m : Magnitude) (k : Int) : Option Nat :=
  let (num, den) := gridFactor m k
  let value := 4 * m.mantissa * num
  let down := value / den
  match readsBack m k down, readsBack m k (down + 1) with
  | true, true => some (if takesUp tie down (value % den) den then down + 1 else down)
  | true, false => some down
  | false, true => some (down + 1)
  | false, false => none

/-- Tries `fuel` grids from step `10 ^ k` on, each ten times finer than the one before. -/
def search (tie : Tie) (m : Magnitude) : (fuel : Nat) → (k : Int) → Option Short
  | 0, _ => none
  | fuel + 1, k =>
      match onGrid? tie m k with
      | some d => some ⟨d, k⟩
      | none => search tie m fuel (k - 1)

/-- A power of ten above the magnitude, at most a hundred times as large: 0.30103 is the
decimal logarithm of two. -/
def coarsest (m : Magnitude) : Int :=
  ((m.mantissa.log2 : Int) + m.exponent + 1) * 30103 / 100000 + 1

def exact (m : Magnitude) : Short :=
  if 0 ≤ m.exponent then ⟨m.mantissa * Nat.pow 2 m.exponent.toNat, 0⟩
  else ⟨m.mantissa * Nat.pow 5 (-m.exponent).toNat, m.exponent⟩

/-- The shortest decimal that reads back as a positive double. Seventeen digits always
suffice, so one of the grids is fine enough; the exact value stands behind them. -/
def shortest (tie : Tie) (m : Magnitude) : Short :=
  (search tie m 20 (coarsest m)).getD (exact m)

end RunLog.Decimal
