import LootFilter.Json.Fault

/-
  This file reads numerals: an optional minus sign, the
  digits of the whole part, the digits of the fraction and
  the exponent.

  Key definitions include:
    * `Json.Numeral`
    * `Json.NumeralFault`
    * `Json.Numeral.scan`
-/

namespace LootFilter.Json

------------------------------------------------------------
-- Numerals
------------------------------------------------------------

/- An exponent: its sign and its digits. -/
structure Exponent where
  negative : Bool
  digits : List Nat
deriving DecidableEq, Repr

/- A numeral by its parts; a fraction has at least one digit. -/
structure Numeral where
  negative : Bool
  whole : List Nat
  fraction : List Nat
  exponent : Option Exponent
deriving DecidableEq, Repr

/- Why a text is no numeral. -/
inductive NumeralFault where
| cutShort
| malformed
deriving DecidableEq, Repr

namespace NumeralFault

/- A numeral cut short by the end of the text is truncated. -/
def read : NumeralFault → Fault
| .cutShort => .truncated
| .malformed => .malformed

/- A numeral that is only passed over is malformed either way. -/
def skip : NumeralFault → Fault
| .cutShort => .malformed
| .malformed => .malformed

end NumeralFault

namespace Numeral

------------------------------------------------------------
-- Scanning
------------------------------------------------------------

/- The value of a decimal digit. -/
def digitValue (c : Char) : Nat :=
  c.toNat - 48

/- At least one digit, and the text after the digits. -/
def scanDigits
    (cs : List Char) :
    Except NumeralFault (List Nat × List Char) :=
  match cs with
  | [] => .error .cutShort
  | c :: _ =>
      if c.isDigit then
        .ok ((cs.takeWhile Char.isDigit).map digitValue,
          cs.dropWhile Char.isDigit)
      else
        .error .malformed

/- The whole part, which starts with zero only if it is zero. -/
def scanWhole
    (cs : List Char) :
    Except NumeralFault (List Nat × List Char) :=
  match cs with
  | '0' :: c :: rest =>
      if c.isDigit then .error .malformed
      else .ok ([0], c :: rest)
  | _ => scanDigits cs

/- The fraction, if the text goes on with one. -/
def scanFraction
    (cs : List Char) :
    Except NumeralFault (List Nat × List Char) :=
  match cs with
  | '.' :: rest => scanDigits rest
  | _ => .ok ([], cs)

/- A sign, if the text goes on with one. -/
def scanSign (cs : List Char) : Bool × List Char :=
  match cs with
  | '-' :: rest => (true, rest)
  | '+' :: rest => (false, rest)
  | _ => (false, cs)

/- The exponent, if the text goes on with one. -/
def scanExponent
    (cs : List Char) :
    Except NumeralFault (Option Exponent × List Char) :=
  match cs with
  | [] => .ok (none, [])
  | c :: rest =>
      if c = 'e' ∨ c = 'E' then do
        let (negative, digits) := scanSign rest
        let (ds, left) ← scanDigits digits
        return (some ⟨negative, ds⟩, left)
      else
        .ok (none, cs)

/- A minus sign, if the text starts with one. -/
def scanMinus (cs : List Char) : Bool × List Char :=
  match cs with
  | '-' :: rest => (true, rest)
  | _ => (false, cs)

/- A numeral and the text after it. -/
def scan
    (cs : List Char) :
    Except NumeralFault (Numeral × List Char) := do
  let (negative, cs) := scanMinus cs
  let (whole, cs) ← scanWhole cs
  let (fraction, cs) ← scanFraction cs
  let (exponent, cs) ← scanExponent cs
  return (⟨negative, whole, fraction, exponent⟩, cs)

------------------------------------------------------------
-- Progress
------------------------------------------------------------

/- Digits shorten the text. -/
theorem length_scanDigits_lt
    {cs rest : List Char}
    {ds : List Nat}
    (h : scanDigits cs = .ok (ds, rest)) :
    rest.length < cs.length := by
  unfold scanDigits at h
  split at h
  · cases h
  · rename_i c tail
    split at h
    · rename_i hDigit
      cases h
      rw [List.dropWhile_cons]
      simp only [hDigit, if_true, List.length_cons]
      have hLe :=
        (List.dropWhile_suffix (l := tail) Char.isDigit).length_le
      omega
    · cases h

/- The whole part shortens the text. -/
theorem length_scanWhole_lt
    {cs rest : List Char}
    {ds : List Nat}
    (h : scanWhole cs = .ok (ds, rest)) :
    rest.length < cs.length := by
  unfold scanWhole at h
  split at h
  · split at h
    · cases h
    · cases h
      simp
  · exact length_scanDigits_lt h

/- The fraction does not lengthen the text. -/
theorem length_scanFraction_le
    {cs rest : List Char}
    {ds : List Nat}
    (h : scanFraction cs = .ok (ds, rest)) :
    rest.length ≤ cs.length := by
  unfold scanFraction at h
  split at h
  · have hLt := length_scanDigits_lt h
    simp only [List.length_cons]
    omega
  · cases h
    exact Nat.le_refl _

/- A sign does not lengthen the text. -/
theorem length_scanSign_le (cs : List Char) :
    (scanSign cs).2.length ≤ cs.length := by
  unfold scanSign
  split <;> simp

/- The exponent does not lengthen the text. -/
theorem length_scanExponent_le
    {cs rest : List Char}
    {e : Option Exponent}
    (h : scanExponent cs = .ok (e, rest)) :
    rest.length ≤ cs.length := by
  unfold scanExponent at h
  split at h
  · cases h
    exact Nat.le_refl _
  · rename_i c tail
    split at h
    · have hSign := length_scanSign_le tail
      cases hDigits : scanDigits (scanSign tail).2 with
      | error f => simp [hDigits, bind, Except.bind] at h
      | ok pair =>
          have hLt := length_scanDigits_lt hDigits
          simp [hDigits, bind, Except.bind, pure,
            Except.pure] at h
          rw [← h.2]
          simp only [List.length_cons]
          omega
    · cases h
      exact Nat.le_refl _

/- A minus sign does not lengthen the text. -/
theorem length_scanMinus_le (cs : List Char) :
    (scanMinus cs).2.length ≤ cs.length := by
  unfold scanMinus
  split <;> simp

/- A numeral shortens the text. -/
theorem length_scan_lt
    {cs rest : List Char}
    {n : Numeral}
    (h : scan cs = .ok (n, rest)) :
    rest.length < cs.length := by
  unfold scan at h
  have hMinus := length_scanMinus_le cs
  cases hWhole : scanWhole (scanMinus cs).2 with
  | error f => simp [hWhole, bind, Except.bind] at h
  | ok whole =>
      have hWholeLt := length_scanWhole_lt hWhole
      cases hFraction : scanFraction whole.2 with
      | error f =>
          simp [hWhole, hFraction, bind, Except.bind] at h
      | ok fraction =>
          have hFractionLe := length_scanFraction_le hFraction
          cases hExponent : scanExponent fraction.2 with
          | error f =>
              simp [hWhole, hFraction, hExponent, bind,
                Except.bind] at h
          | ok exponent =>
              have hExponentLe :=
                length_scanExponent_le hExponent
              simp [hWhole, hFraction, hExponent, bind,
                Except.bind, pure, Except.pure] at h
              rw [← h.2]
              omega

end Numeral

end LootFilter.Json
