/-
  This file defines white space and its removal from the
  ends of a text.

  Two notions are kept apart.  White space is the Unicode
  property `White_Space`; it is what trimming removes.  The
  blanks between arguments are the space and the tab only.

  Key definitions include:
    * `Text.isWhite`
    * `Text.isBlank`
    * `Text.trimStart`
    * `Text.trimEnd`
    * `Text.trim`
-/

namespace LootFilter.Text

------------------------------------------------------------
-- Character classes
------------------------------------------------------------

/- The Unicode property `White_Space`. -/
def isWhite (c : Char) : Bool :=
  let n := c.toNat
  (9 ≤ n && n ≤ 13) || n == 0x20 || n == 0x85 || n == 0xA0 ||
    n == 0x1680 || (0x2000 ≤ n && n ≤ 0x200A) ||
    n == 0x2028 || n == 0x2029 || n == 0x202F ||
    n == 0x205F || n == 0x3000

/- The characters that separate and indent arguments. -/
def isBlank (c : Char) : Bool :=
  c == ' ' || c == '\t'

/- Every blank is white space. -/
theorem isWhite_of_isBlank
    {c : Char}
    (h : isBlank c = true) :
    isWhite c = true := by
  simp only [isBlank, Bool.or_eq_true, beq_iff_eq] at h
  rcases h with rfl | rfl <;> decide

------------------------------------------------------------
-- Trimming
------------------------------------------------------------

/- Drop the white space at the front. -/
def trimStart (cs : List Char) : List Char :=
  cs.dropWhile isWhite

/- Drop the white space at the back. -/
def trimEnd (cs : List Char) : List Char :=
  (cs.reverse.dropWhile isWhite).reverse

/- Drop the white space at both ends. -/
def trim (cs : List Char) : List Char :=
  trimEnd (trimStart cs)

/- Drop the blanks at the front. -/
def skipBlanks (cs : List Char) : List Char :=
  cs.dropWhile isBlank

end LootFilter.Text
