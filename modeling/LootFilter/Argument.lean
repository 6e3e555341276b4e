import LootFilter.Keyword
import LootFilter.Text.Blank

/-
  This file reads the arguments of a property from its text,
  one at a time.  An argument is a bare token, which ends at
  a space, or a body between quotes.  Reading an argument
  gives it trimmed, together with the text that is left.  A
  reader that fails has taken something of the text, too.

  Key definitions include:
    * `LexError`
    * `Argument.Step`
    * `Argument.lex`
    * `Argument.lexBare`
    * `Argument.next`
    * `Argument.bare`
    * `Argument.operator`
    * `Argument.remainder`
-/

namespace LootFilter

/- Why no argument can be read from a text. -/
inductive LexError where
| unterminatedQuote
| missingSpaceAfterQuote
| emptyArgument
deriving DecidableEq, Repr

namespace Argument

/- The text up to the first space. -/
def token (cs : List Char) : List Char :=
  cs.takeWhile (· ≠ ' ')

/- The text from the first space on. -/
def afterToken (cs : List Char) : List Char :=
  cs.dropWhile (· ≠ ' ')

/-
  What a trimmed argument counts as.  An empty one is as good
  as none where an argument is optional, and an error where
  one is required.
-/
def accept
    (optional : Bool)
    (body : List Char) :
    Except LexError (Option (List Char)) :=
  match Text.trim body with
  | [] => if optional then .ok none else .error .emptyArgument
  | c :: cs => .ok (some (c :: cs))

/- The text behind the first quote. -/
def afterQuote (cs : List Char) : List Char :=
  (cs.dropWhile (· ≠ '"')).tail

/-
  The body of a quoted argument, given the text after the
  opening quote.  The closing quote must be followed by a
  space or by nothing.
-/
def quoted (cs : List Char) : Except LexError (List Char) :=
  match cs.dropWhile (· ≠ '"') with
  | [] => .error .unterminatedQuote
  | _ :: rest =>
      match rest with
      | [] => .ok (cs.takeWhile (· ≠ '"'))
      | c :: _ =>
          if c = ' ' then
            .ok (cs.takeWhile (· ≠ '"'))
          else
            .error .missingSpaceAfterQuote

/-
  A step of a reader: what it gives, and what it leaves of the
  text, whether or not it fails.
-/
structure Step where
  value : Except LexError (Option (List Char))
  left : List Char

/- What a step gives and leaves if it does not fail. -/
def Step.result
    (s : Step) :
    Except LexError (Option (List Char) × List Char) :=
  s.value.map fun value => (value, s.left)

/-
  The step over an argument, bare or quoted.  Nothing but
  blanks is no argument.
-/
def lex (optional : Bool) (cs : List Char) : Step :=
  match Text.skipBlanks cs with
  | [] => ⟨.ok none, []⟩
  | c :: rest =>
      if c = '"' then
        ⟨quoted rest >>= accept optional, afterQuote rest⟩
      else
        ⟨accept optional (token (c :: rest)),
          afterToken (c :: rest)⟩

/- The step over a token, in which quotes are like any other. -/
def lexBare (cs : List Char) : Step :=
  match Text.skipBlanks cs with
  | [] => ⟨.ok none, []⟩
  | c :: rest =>
      ⟨accept false (token (c :: rest)), afterToken (c :: rest)⟩

/- Read the next argument. -/
def next
    (optional : Bool)
    (cs : List Char) :
    Except LexError (Option (List Char) × List Char) :=
  (lex optional cs).result

/- Read the next token. -/
def bare
    (cs : List Char) :
    Except LexError (Option (List Char) × List Char) :=
  (lexBare cs).result

/-
  Read a relational operator that stands alone at the front.
  Without one the text is left as it is.
-/
def operator
    (cs : List Char) :
    Option RelationalOp × List Char :=
  let rest := Text.skipBlanks cs
  match
    Keyword.find? RelationalOp (String.ofList (token rest))
  with
  | some op => (some op, afterToken rest)
  | none => (none, cs)

/- What is left after the arguments, unless only blanks are. -/
def remainder (cs : List Char) : Option (List Char) :=
  match Text.trimEnd (Text.skipBlanks cs) with
  | [] => none
  | c :: rest => some (c :: rest)

------------------------------------------------------------
-- Progress
------------------------------------------------------------

/- Skipping blanks leaves an end of the text. -/
theorem skipBlanks_suffix (cs : List Char) :
    Text.skipBlanks cs <:+ cs :=
  List.dropWhile_suffix _

/- What follows a token is an end of the text. -/
theorem afterToken_suffix (cs : List Char) :
    afterToken cs <:+ cs :=
  List.dropWhile_suffix _

/- An accepted argument is the trimmed body. -/
theorem eq_trim_of_accept
    {optional : Bool}
    {body arg : List Char}
    (h : accept optional body = .ok (some arg)) :
    arg = Text.trim body ∧ arg ≠ [] := by
  unfold accept at h
  split at h
  · split at h <;> cases h
  · rename_i c cs hTrim
    cases h
    exact ⟨hTrim.symm, by simp⟩

/- What is behind a quote is an end of the text. -/
theorem afterQuote_suffix (cs : List Char) :
    afterQuote cs <:+ cs :=
  (List.tail_suffix _).trans (List.dropWhile_suffix _)

/- What a step that succeeds gives and leaves. -/
theorem Step.result_eq_ok_iff
    {s : Step}
    {value : Option (List Char)}
    {rest : List Char} :
    s.result = .ok (value, rest) ↔
      s.value = .ok value ∧ s.left = rest := by
  unfold result
  cases s.value <;> simp [Except.map]

/-
  Unless only blanks are left, the step over an argument
  shortens the text.
-/
theorem length_left_lex_lt
    {cs : List Char}
    (optional : Bool)
    (hSome : Text.skipBlanks cs ≠ []) :
    (lex optional cs).left.length < cs.length := by
  have hSkip := (skipBlanks_suffix cs).length_le
  unfold lex
  split
  · rename_i hNone
    exact absurd hNone hSome
  · rename_i c left hLeft
    rw [hLeft, List.length_cons] at hSkip
    split
    · have hLe := (afterQuote_suffix left).length_le
      dsimp only
      omega
    · have hSpace : c ≠ ' ' := by
        rintro rfl
        have hHead :=
          List.head?_dropWhile_not Text.isBlank cs
        unfold Text.skipBlanks at hLeft
        rw [hLeft] at hHead
        simp [Text.isBlank] at hHead
      have hAfter :
          afterToken (c :: left) = afterToken left := by
        unfold afterToken
        rw [List.dropWhile_cons]
        simp [hSpace]
      have hLe := (afterToken_suffix left).length_le
      dsimp only
      rw [hAfter]
      omega

/- There is no argument among blanks. -/
theorem skipBlanks_ne_nil_of_next
    {optional : Bool}
    {cs arg rest : List Char}
    (h : next optional cs = .ok (some arg, rest)) :
    Text.skipBlanks cs ≠ [] := by
  intro hNone
  have hValue := (Step.result_eq_ok_iff.mp h).1
  unfold lex at hValue
  rw [hNone] at hValue
  cases hValue

/- So reading an argument shortens the text. -/
theorem next_length_lt
    {optional : Bool}
    {cs arg rest : List Char}
    (h : next optional cs = .ok (some arg, rest)) :
    rest.length < cs.length := by
  rw [← (Step.result_eq_ok_iff.mp h).2]
  exact
    length_left_lex_lt optional (skipBlanks_ne_nil_of_next h)

end Argument

end LootFilter
