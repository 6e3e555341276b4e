import LootFilter.Decimal.Binary64

/-
  This file finds the shortest decimal that reads back as a
  given magnitude: of all decimals inside the interval that
  rounds to it one with the fewest digits, and of those the
  nearest.

  Key definitions include:
    * `Decimal.Digits`
    * `Decimal.shortest`
-/

namespace LootFilter.Decimal

/- A decimal: the coefficient times ten to the exponent. -/
structure Digits where
  coefficient : Nat
  exponent : Int
deriving DecidableEq, Repr

/- An exact fraction. -/
structure Ratio where
  num : Nat
  den : Nat
deriving DecidableEq, Repr

namespace Ratio

/- A number times a power of a base. -/
def scaled
    (base n : Nat)
    (e : Int) : Ratio :=
  if e < 0 then
    ⟨n, Nat.pow base (-e).toNat⟩
  else
    ⟨n * Nat.pow base e.toNat, 1⟩

/- Comparison by cross multiplication. -/
def lt (x y : Ratio) : Bool :=
  x.num * y.den < y.num * x.den

/- The distance between two fractions. -/
def dist (x y : Ratio) : Ratio :=
  let a := x.num * y.den
  let b := y.num * x.den
  ⟨(a - b) + (b - a), x.den * y.den⟩

end Ratio

------------------------------------------------------------
-- The interval of a magnitude
------------------------------------------------------------

/- The magnitude itself. -/
def exact (x : Binary64) : Ratio :=
  .scaled 2 x.mantissa x.exponent

/- Half way to the next magnitude. -/
def upperEnd (x : Binary64) : Ratio :=
  .scaled 2 (4 * x.mantissa + 2) (x.exponent - 2)

/-
  Half way from the magnitude before, which is closer where
  the exponent changes.
-/
def lowerEnd (x : Binary64) : Ratio :=
  if x.mantissa = Binary64.leastNormal ∧ -1074 < x.exponent then
    .scaled 2 (4 * x.mantissa - 1) (x.exponent - 2)
  else
    .scaled 2 (4 * x.mantissa - 2) (x.exponent - 2)

/-
  Whether a fraction reads as the magnitude.  The ends do so
  if the mantissa is even.
-/
def readsAs (x : Binary64) (r : Ratio) : Bool :=
  if x.mantissa % 2 = 0 then
    !r.lt (lowerEnd x) && !(upperEnd x).lt r
  else
    (lowerEnd x).lt r && r.lt (upperEnd x)

------------------------------------------------------------
-- Search by number of digits
------------------------------------------------------------

/- The least power of ten above a magnitude that is not zero. -/
def pointPosition (x : Binary64) : Int :=
  let log : Int := (x.mantissa.log2 : Int) + x.exponent
  let guess := (log * 30103) / 100000
  let v := exact x
  if v.lt (.scaled 10 1 guess) then guess
  else if v.lt (.scaled 10 1 (guess + 1)) then guess + 1
  else guess + 2

/-
  The decimal nearest to the magnitude, among its two
  neighbours on the grid of a power of ten, that reads as the
  magnitude; a tie goes to the even coefficient.
-/
def onGrid
    (x : Binary64)
    (grid : Int) : Option Digits :=
  let v := exact x
  let unit := Ratio.scaled 10 1 grid
  let below := (v.num * unit.den) / (v.den * unit.num)
  let low := Ratio.scaled 10 below grid
  let high := Ratio.scaled 10 (below + 1) grid
  match readsAs x low, readsAs x high with
  | false, false => none
  | true, false => some ⟨below, grid⟩
  | false, true => some ⟨below + 1, grid⟩
  | true, true =>
      let toLow := v.dist low
      let toHigh := v.dist high
      if toLow.lt toHigh then some ⟨below, grid⟩
      else if toHigh.lt toLow then some ⟨below + 1, grid⟩
      else if below % 2 = 0 then some ⟨below, grid⟩
      else some ⟨below + 1, grid⟩

/- Move the zeros at the end of a coefficient to the exponent. -/
def Digits.normalize (d : Digits) : Digits :=
  if h : d.coefficient ≠ 0 ∧ d.coefficient % 10 = 0 then
    Digits.normalize ⟨d.coefficient / 10, d.exponent + 1⟩
  else
    d
termination_by d.coefficient
decreasing_by
  exact Nat.div_lt_self (Nat.pos_of_ne_zero h.1) (by decide)

/- The shortest decimal that reads back as the magnitude. -/
def shortest (x : Binary64) : Digits :=
  let point := pointPosition x
  let found :=
    (List.range 17).findSome? fun i =>
      onGrid x (point - (i + 1 : Nat))
  match found with
  | some d => d.normalize
  | none => ⟨0, 0⟩

end LootFilter.Decimal
