import LootFilter.Text.GraphemeExtend
import LootFilter.Text.Printable

/-
  This file defines how a text is shown in quotes, so that
  every character of it can be seen.

  Key definitions include:
    * `Text.showsItself`
    * `Text.quoteChar`
    * `Text.quote`
-/

namespace LootFilter.Text

/-
  The halfwidth marks of voiced sounds.  They attach to the
  character before them, but take a place of their own.
-/
def isHalfwidthSoundMark (c : Char) : Bool :=
  c = '\uff9e' || c = '\uff9f'

/-
  The letters that fill the place of a Hangul letter.  They
  count as letters, but have no shape.
-/
def isHangulFiller (c : Char) : Bool :=
  [0x115F, 0x1160, 0x3164, 0xFFA0].contains c.toNat

/-
  Whether a character shows by itself and leaves the one
  before it as it is.
-/
def showsItself (c : Char) : Bool :=
  isHalfwidthSoundMark c ||
    isPrintable c && !isHangulFiller c && !isGraphemeExtend c

/- A character shown by its number. -/
def numberedChar (c : Char) : List Char :=
  ['\\', 'u', '{'] ++ Nat.toDigits 16 c.toNat ++ ['}']

/-
  A character inside quotes.  What does not show by itself is
  shown by its number.
-/
def quoteChar (c : Char) : List Char :=
  if c = '\x00' then ['\\', '0']
  else if c = '\t' then ['\\', 't']
  else if c = '\r' then ['\\', 'r']
  else if c = '\n' then ['\\', 'n']
  else if c = '"' then ['\\', '"']
  else if c = '\\' then ['\\', '\\']
  else if showsItself c then [c]
  else numberedChar c

/- A text in quotes. -/
def quote (s : String) : String :=
  String.ofList
    ('"' :: s.toList.flatMap quoteChar ++ ['"'])

end LootFilter.Text
