import LootFilter.Decimal.Shortest
import LootFilter.Json.Numeral

/-
  This file defines the numbers of documents: integers of at
  most 64 bits, and floating point numbers.

  Key definitions include:
    * `Json.Number`
    * `Json.Numeral.number?`
    * `Json.Number.print`
-/

namespace LootFilter.Json

/- An integer, or a sign and a magnitude. -/
inductive Number where
| int (n : Int)
| double (negative : Bool) (magnitude : Decimal.Binary64)
deriving DecidableEq, Repr

------------------------------------------------------------
-- The value of a numeral
------------------------------------------------------------

namespace Numeral

/- Two to the power 64, the bound of a significand. -/
def significandBound : Nat :=
  0x10000000000000000

/- Two to the power 63, the most that a minus sign can take. -/
def negativeBound : Nat :=
  0x8000000000000000

/-
  Append digits to a significand while it stays in its bound.
  The result is the significand and the number of digits that
  were left out.
-/
def gather (significand : Nat) : List Nat → Nat × Nat
| [] => (significand, 0)
| d :: ds =>
    if significand * 10 + d < significandBound then
      gather (significand * 10 + d) ds
    else
      (significand, ds.length + 1)

/- The largest exponent that is told from infinity. -/
def maxExponent : Nat :=
  0x7fffffff

/-
  The magnitude of a numeral with the given significand, whose
  unit is ten to the power `scale`.
-/
def magnitude?
    (significand : Nat)
    (scale : Int)
    (exponent : Option Exponent) :
    Option Decimal.Binary64 :=
  match exponent with
  | none => Decimal.Binary64.ofScientific significand scale
  | some e =>
      let size := e.digits.foldl (fun n d => n * 10 + d) 0
      if maxExponent < size then
        if significand ≠ 0 ∧ e.negative = false then none
        else some .zero
      else if e.negative then
        Decimal.Binary64.ofScientific significand
          (scale - size)
      else
        Decimal.Binary64.ofScientific significand
          (scale + size)

/-
  The number that a numeral stands for.  A numeral without
  fraction and exponent is an integer where 64 bits hold it,
  except for minus zero; any other is a floating point number,
  and there is none beyond the largest magnitude.
-/
def number? (n : Numeral) : Option Number :=
  let (whole, left) := gather 0 n.whole
  if n.fraction = [] ∧ n.exponent = none ∧ left = 0 ∧
      (n.negative = false ∨
        (0 < whole ∧ whole ≤ negativeBound)) then
    some (.int (if n.negative then -whole else whole))
  else
    let (significand, unread) := gather whole n.fraction
    let scale : Int :=
      left - ((n.fraction.length - unread : Nat) : Int)
    (magnitude? significand scale n.exponent).map
      (.double n.negative)

end Numeral

------------------------------------------------------------
-- The text of a number
------------------------------------------------------------

namespace Number

/- The decimal digits of a natural number. -/
def digits (n : Nat) : List Char :=
  Nat.toDigits 10 n

/- The positions of the point at which no exponent is used. -/
def plainPoints : Int × Int :=
  (-4, 16)

/-
  A decimal with a point.  Where the point is near the digits
  it is written in its place, with at least one digit on
  either side; elsewhere the decimal has one digit before the
  point and an exponent with its sign.
-/
def printDigits (d : Decimal.Digits) : List Char :=
  let ds := digits d.coefficient
  let point := (ds.length : Int) + d.exponent
  if 0 ≤ d.exponent ∧ point ≤ plainPoints.2 then
    ds ++ List.replicate d.exponent.toNat '0' ++ ['.', '0']
  else if 0 < point ∧ point ≤ plainPoints.2 then
    ds.take point.toNat ++ '.' :: ds.drop point.toNat
  else if plainPoints.1 ≤ point ∧ point ≤ 0 then
    ['0', '.'] ++ List.replicate (-point).toNat '0' ++ ds
  else
    let power := point - 1
    let mantissa :=
      match ds with
      | [] => []
      | [c] => [c]
      | c :: more => c :: '.' :: more
    mantissa ++ ['e', if power < 0 then '-' else '+'] ++
      digits power.natAbs

/- The text of a number. -/
def print : Number → List Char
| .int n =>
    (if n < 0 then ['-'] else []) ++ digits n.natAbs
| .double negative magnitude =>
    (if negative then ['-'] else []) ++
      if magnitude.mantissa = 0 then ['0', '.', '0']
      else printDigits (Decimal.shortest magnitude)

end Number

end LootFilter.Json
