/-
  This file defines the magnitudes of 64-bit binary floating
  point numbers, with rounding of fractions to the nearest
  magnitude, all in exact arithmetic on natural numbers.

  Key definitions include:
    * `Decimal.Binary64`
    * `Decimal.Binary64.ofRatio`
    * `Decimal.Binary64.mul`
    * `Decimal.Binary64.div`
    * `Decimal.Binary64.ofScientific`
-/

namespace LootFilter.Decimal

/-
  A magnitude: the mantissa times two to the exponent.  The
  exponent is at least -1074, and the mantissa has 53 bits
  unless the exponent is that least one.
-/
structure Binary64 where
  mantissa : Nat
  exponent : Int
deriving DecidableEq, Repr

namespace Binary64

/- The magnitude zero. -/
def zero : Binary64 :=
  ⟨0, -1074⟩

/- Two to the power 53, the bound of a mantissa. -/
def mantissaBound : Nat :=
  0x20000000000000

/- The least mantissa of 53 bits. -/
def leastNormal : Nat :=
  0x10000000000000

------------------------------------------------------------
-- Rounding
------------------------------------------------------------

/-
  The quotient of two numbers after dividing the first by two
  to the given exponent, as numerator and denominator.
-/
def scaled
    (num den : Nat)
    (e : Int) : Nat × Nat :=
  if e < 0 then
    (num * Nat.pow 2 (-e).toNat, den)
  else
    (num, den * Nat.pow 2 e.toNat)

/- The nearest integer to a fraction, a tie going to even. -/
def roundHalfEven (num den : Nat) : Nat :=
  let q := num / den
  let r := num % den
  if 2 * r < den then q
  else if den < 2 * r then q + 1
  else if q % 2 = 0 then q
  else q + 1

/-
  The exponent at which a fraction has a mantissa of 53 bits,
  or the least exponent.
-/
def ratioExponent (num den : Nat) : Int :=
  let guess : Int := (num.log2 : Int) - den.log2 - 53
  let (n, d) := scaled num den guess
  let exact := if n < mantissaBound * d then guess else guess + 1
  max exact (-1074)

/-
  The magnitude nearest to a fraction, a tie going to the
  even mantissa, or `none` if it is beyond all magnitudes.
-/
def ofRatio (num den : Nat) : Option Binary64 :=
  if num = 0 then
    some zero
  else
    let e := ratioExponent num den
    let (n, d) := scaled num den e
    let m := roundHalfEven n d
    let rounded : Binary64 :=
      if m = mantissaBound then ⟨leastNormal, e + 1⟩
      else ⟨m, e⟩
    if 971 < rounded.exponent then none else some rounded

/- The magnitude nearest to a fraction times a power of two. -/
def ofScaledRatio
    (num den : Nat)
    (e : Int) : Option Binary64 :=
  if e < 0 then
    ofRatio num (den * Nat.pow 2 (-e).toNat)
  else
    ofRatio (num * Nat.pow 2 e.toNat) den

------------------------------------------------------------
-- Arithmetic
------------------------------------------------------------

/- The rounded product. -/
def mul (x y : Binary64) : Option Binary64 :=
  ofScaledRatio (x.mantissa * y.mantissa) 1
    (x.exponent + y.exponent)

/- The rounded quotient. -/
def div (x y : Binary64) : Option Binary64 :=
  ofScaledRatio x.mantissa y.mantissa
    (x.exponent - y.exponent)

/- The rounded power of ten. -/
def tenPow (k : Nat) : Option Binary64 :=
  ofRatio (Nat.pow 10 k) 1

/-
  Divide by a power of ten.  The divisor is a magnitude of at
  most 10^308 at each step, and every step rounds.
-/
def shrink (x : Binary64) (k : Nat) : Option Binary64 :=
  if k ≤ 308 then do
    x.div (← tenPow k)
  else if x.mantissa = 0 then
    some x
  else do
    let next ← x.div (← tenPow 308)
    shrink next (k - 308)
termination_by k

/-
  The magnitude for a number in scientific notation: the
  significand is rounded, then multiplied or divided by the
  rounded power of ten.  `none` is beyond all magnitudes.
-/
def ofScientific
    (significand : Nat)
    (exponent : Int) : Option Binary64 := do
  let x ← ofRatio significand 1
  if exponent < 0 then
    shrink x (-exponent).toNat
  else if exponent ≤ 308 then
    x.mul (← tenPow exponent.toNat)
  else if x.mantissa = 0 then
    some x
  else
    none

end Binary64

end LootFilter.Decimal
