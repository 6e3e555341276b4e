import LootFilter.Json.Fault

/-
  This file reads string literals.

  Scanning finds the end of a literal and takes its body
  apart into characters and numbered code units.  Decoding
  joins the code units into characters, which fails on a
  surrogate without its partner.  A literal that is only
  passed over is scanned and not decoded.

  Key definitions include:
    * `Json.Piece`
    * `Json.Literal`
    * `Json.Literal.scan`
    * `Json.Literal.text`
-/

namespace LootFilter.Json

------------------------------------------------------------
-- Literals
------------------------------------------------------------

/- A character of a body, or a code unit given by number. -/
inductive Piece where
| plain (c : Char)
| unit (n : Nat)
deriving DecidableEq, Repr

/-
  The body of a literal up to its closing quote, or up to the
  fault that ends it.
-/
structure Literal where
  pieces : List Piece
  fault : Option Fault
deriving DecidableEq, Repr

namespace Literal

/- The same literal with one more piece in front. -/
def push (p : Piece) (l : Literal) : Literal :=
  { l with pieces := p :: l.pieces }

------------------------------------------------------------
-- Scanning
------------------------------------------------------------

/- The value of a hexadecimal digit. -/
def hexValue (c : Char) : Option Nat :=
  let n := c.toNat
  if 48 ≤ n ∧ n ≤ 57 then some (n - 48)
  else if 97 ≤ n ∧ n ≤ 102 then some (n - 87)
  else if 65 ≤ n ∧ n ≤ 70 then some (n - 55)
  else none

/- The value of four hexadecimal digits. -/
def unitValue (a b c d : Char) : Option Nat := do
  let w ← hexValue a
  let x ← hexValue b
  let y ← hexValue c
  let z ← hexValue d
  return ((w * 16 + x) * 16 + y) * 16 + z

/- The character that a letter after a backslash stands for. -/
def escapeValue (c : Char) : Option Char :=
  if c = '"' then some '"'
  else if c = '\\' then some '\\'
  else if c = '/' then some '/'
  else if c = 'b' then some '\x08'
  else if c = 'f' then some '\x0c'
  else if c = 'n' then some '\n'
  else if c = 'r' then some '\r'
  else if c = 't' then some '\t'
  else none

/-
  What is wrong where four hexadecimal digits are missing.
  Digits are asked for as four bytes, so the text counts as
  ended when fewer bytes than that are left.
-/
def missingDigits (cs : List Char) : Fault :=
  if (String.ofList cs).utf8ByteSize < 4 then
    .truncated
  else
    .malformed

/-
  Scan a literal, given the text after its opening quote.
  The result is the literal and the text after its closing
  quote; nothing is left after a fault.
-/
def scan : List Char → Literal × List Char
| [] => (⟨[], some .truncated⟩, [])
| c :: cs =>
    if c = '"' then (⟨[], none⟩, cs)
    else if c = '\\' then
      match cs with
      | [] => (⟨[], some .truncated⟩, [])
      | 'u' :: w :: x :: y :: z :: rest =>
          match unitValue w x y z with
          | none => (⟨[], some .malformed⟩, [])
          | some n =>
              let (l, left) := scan rest
              (l.push (.unit n), left)
      | 'u' :: few => (⟨[], some (missingDigits few)⟩, [])
      | e :: rest =>
          match escapeValue e with
          | none => (⟨[], some .malformed⟩, [])
          | some d =>
              let (l, left) := scan rest
              (l.push (.plain d), left)
    else if c.toNat < 0x20 then (⟨[], some .malformed⟩, [])
    else
      let (l, left) := scan cs
      (l.push (.plain c), left)

/- Scanning leaves no more text than there was. -/
theorem length_scan_le (cs : List Char) :
    (scan cs).2.length ≤ cs.length := by
  fun_induction scan cs <;> simp_all <;> omega

------------------------------------------------------------
-- Decoding
------------------------------------------------------------

/- Whether a code unit is the first half of a pair. -/
def isHighSurrogate (n : Nat) : Bool :=
  0xD800 ≤ n && n ≤ 0xDBFF

/- Whether a code unit is the second half of a pair. -/
def isLowSurrogate (n : Nat) : Bool :=
  0xDC00 ≤ n && n ≤ 0xDFFF

/- The character that a pair of surrogates stands for. -/
def pairValue (high low : Nat) : Char :=
  Char.ofNat
    (0x10000 + (high - 0xD800) * 0x400 + (low - 0xDC00))

/-
  The characters of a body.  `cut` is what is wrong when the
  body ends between the halves of a pair.
-/
def decode
    (cut : Fault) :
    List Piece → Except Fault (List Char)
| [] => .ok []
| .plain c :: rest => (decode cut rest).map (c :: ·)
| .unit n :: rest =>
    if isLowSurrogate n then .error .malformed
    else if isHighSurrogate n then
      match rest with
      | [] => .error cut
      | .plain _ :: _ => .error .malformed
      | .unit m :: more =>
          if isLowSurrogate m then
            (decode cut more).map (pairValue n m :: ·)
          else
            .error .malformed
    else
      (decode cut rest).map (Char.ofNat n :: ·)

/- The text of a literal. -/
def text (l : Literal) : Except Fault String :=
  match decode (l.fault.getD .malformed) l.pieces, l.fault with
  | .error e, _ => .error e
  | .ok _, some e => .error e
  | .ok cs, none => .ok (String.ofList cs)

/- Whether a literal may be passed over. -/
def skip (l : Literal) : Except Fault Unit :=
  match l.fault with
  | some e => .error e
  | none => .ok ()

end Literal

end LootFilter.Json
