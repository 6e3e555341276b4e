import LootFilter.Json.Literal
import LootFilter.Json.Numeral

/-
  This file cuts a text into the tokens of JSON.

  A token that is spoilt, because its literal, numeral or
  word has a fault, is the last one: nothing after the fault
  is looked at.

  Key definitions include:
    * `Json.Token`
    * `Json.Token.lex`
-/

namespace LootFilter.Json

/- A token of JSON. -/
inductive Token where
| openArray
| closeArray
| openObject
| closeObject
| comma
| colon
| null
| bool (b : Bool)
| text (l : Literal)
| number (n : Numeral)
| spoiltNumber (e : NumeralFault)
| spoiltWord (e : Fault)
| stray
deriving DecidableEq, Repr

namespace Token

/- The white space between tokens. -/
def isSpace (c : Char) : Bool :=
  c == ' ' || c == '\n' || c == '\t' || c == '\r'

/- The mark that a character is by itself. -/
def mark? (c : Char) : Option Token :=
  if c = '[' then some .openArray
  else if c = ']' then some .closeArray
  else if c = '{' then some .openObject
  else if c = '}' then some .closeObject
  else if c = ',' then some .comma
  else if c = ':' then some .colon
  else none

/- The word that starts with a letter. -/
def word? (c : Char) : Option (List Char × Token) :=
  if c = 'n' then some (['u', 'l', 'l'], .null)
  else if c = 't' then some (['r', 'u', 'e'], .bool true)
  else if c = 'f' then
    some (['a', 'l', 's', 'e'], .bool false)
  else none

/- Drop the letters that a word goes on with. -/
def scanWord :
    List Char → List Char → Except Fault (List Char)
| [], cs => .ok cs
| _ :: _, [] => .error .truncated
| w :: ws, c :: cs =>
    if c = w then scanWord ws cs else .error .malformed

/- A word does not lengthen the text. -/
theorem length_scanWord_le
    {ws cs rest : List Char}
    (h : scanWord ws cs = .ok rest) :
    rest.length ≤ cs.length := by
  fun_induction scanWord ws cs with
  | case1 cs =>
      cases h
      exact Nat.le_refl _
  | case2 => cases h
  | case3 ws w cs ih =>
      have hLe := ih h
      simp only [List.length_cons]
      omega
  | case4 => cases h

/- The tokens of a text. -/
def lex : List Char → List Token
| [] => []
| c :: cs =>
    if isSpace c then
      lex cs
    else
      match mark? c, word? c with
      | some t, _ => t :: lex cs
      | none, some (ws, t) =>
          match _hWord : scanWord ws cs with
          | .error e => [.spoiltWord e]
          | .ok rest => t :: lex rest
      | none, none =>
          if c = '"' then
            .text (Literal.scan cs).1 ::
              lex (Literal.scan cs).2
          else if c = '-' ∨ c.isDigit then
            match _hNumber : Numeral.scan (c :: cs) with
            | .error e => [.spoiltNumber e]
            | .ok (n, rest) => .number n :: lex rest
          else
            [.stray]
termination_by cs => cs.length
decreasing_by
  · simp
  · simp
  · have hLe := length_scanWord_le _hWord
    simp only [List.length_cons]
    omega
  · have hLe := Literal.length_scan_le cs
    simp only [List.length_cons]
    omega
  · exact Numeral.length_scan_lt _hNumber

end Token

end LootFilter.Json
