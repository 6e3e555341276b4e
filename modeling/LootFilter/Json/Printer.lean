import LootFilter.Json.Value

/-
  This file writes JSON values: an item or member on each
  line, indented by two spaces for each array or object
  around it.  Nothing follows the last line.

  Key definitions include:
    * `Json.escape`
    * `Json.Value.print`
-/

namespace LootFilter.Json

------------------------------------------------------------
-- Texts
------------------------------------------------------------

/- The lower-case hexadecimal digit of a number below 16. -/
def hexDigit (n : Nat) : Char :=
  if n < 10 then Char.ofNat (48 + n) else Char.ofNat (87 + n)

/-
  A character inside a literal.  Only the quote, the backslash
  and the control characters below the space are escaped.
-/
def escapeChar (c : Char) : List Char :=
  if c = '"' then ['\\', '"']
  else if c = '\\' then ['\\', '\\']
  else if c = '\x08' then ['\\', 'b']
  else if c = '\x0c' then ['\\', 'f']
  else if c = '\n' then ['\\', 'n']
  else if c = '\r' then ['\\', 'r']
  else if c = '\t' then ['\\', 't']
  else if c.toNat < 0x20 then
    ['\\', 'u', '0', '0', hexDigit (c.toNat / 16),
      hexDigit (c.toNat % 16)]
  else [c]

/- A text as a literal. -/
def escape (s : String) : List Char :=
  '"' :: s.toList.flatMap escapeChar ++ ['"']

------------------------------------------------------------
-- Values
------------------------------------------------------------

/- A new line at a depth of indentation. -/
def newLine (depth : Nat) : List Char :=
  '\n' :: List.replicate (2 * depth) ' '

namespace Value

mutual

/- A value that starts at a depth of indentation. -/
def printAt : Nat → Value → List Char
| _, .null => ['n', 'u', 'l', 'l']
| _, .bool true => ['t', 'r', 'u', 'e']
| _, .bool false => ['f', 'a', 'l', 's', 'e']
| _, .number n => n.print
| _, .text s => escape s
| _, .array [] => ['[', ']']
| depth, .array (v :: vs) =>
    ['['] ++ newLine (depth + 1) ++ printAt (depth + 1) v ++
      printItems (depth + 1) vs ++ newLine depth ++ [']']
| _, .object [] => ['{', '}']
| depth, .object ((name, v) :: ms) =>
    ['{'] ++ newLine (depth + 1) ++
      escape name ++ [':', ' '] ++ printAt (depth + 1) v ++
      printMembers (depth + 1) ms ++ newLine depth ++ ['}']

/- The further items of an array. -/
def printItems : Nat → List Value → List Char
| _, [] => []
| depth, v :: vs =>
    [','] ++ newLine depth ++ printAt depth v ++
      printItems depth vs

/- The further members of an object. -/
def printMembers : Nat → List (String × Value) → List Char
| _, [] => []
| depth, (name, v) :: ms =>
    [','] ++ newLine depth ++
      escape name ++ [':', ' '] ++ printAt depth v ++
      printMembers depth ms

end

/- The text of a value. -/
def print (v : Value) : String :=
  String.ofList (printAt 0 v)

end Value

end LootFilter.Json
