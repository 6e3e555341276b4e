import LootFilter.Argument
import LootFilter.Proofs.Outcome
import Mathlib.Data.List.TakeWhile

/-
  How an argument is written.

  There are three notions of what is blank: spaces and tabs
  are skipped in front of an argument, only a space ends one,
  and all white space is trimmed from it.

  Main declarations:
    * `Argument.Written`
    * `Argument.IsApart`
    * `Argument.next_eq_ok_iff`
    * `Argument.accept_eq_some_iff`
    * `Argument.remainder_eq_none_iff`
-/

namespace LootFilter

------------------------------------------------------------
-- White Space
------------------------------------------------------------

namespace Text

/- Whether a text is nothing but white space. -/
def IsWhite (cs : List Char) : Prop :=
  ∀ c ∈ cs, isWhite c = true

/- Whether a text is nothing but spaces and tabs. -/
def IsBlank (cs : List Char) : Prop :=
  ∀ c ∈ cs, isBlank c = true

/- Nothing is left at the back of white space alone. -/
theorem trimEnd_eq_nil_iff {cs : List Char} :
    trimEnd cs = [] ↔ IsWhite cs := by
  rw [trimEnd, List.reverse_eq_nil_iff,
    List.dropWhile_eq_nil_iff]
  simp [IsWhite]

/- Trimming leaves nothing of white space alone. -/
theorem trim_eq_nil_iff {cs : List Char} :
    trim cs = [] ↔ IsWhite cs := by
  rw [trim, trimEnd_eq_nil_iff, trimStart]
  constructor
  · intro hRest c hMem
    rw [← List.takeWhile_append_dropWhile (p := isWhite) (l := cs),
      List.mem_append] at hMem
    rcases hMem with hFront | hBack
    · exact List.mem_takeWhile_imp hFront
    · exact hRest c hBack
  · intro hWhite c hMem
    exact hWhite c ((List.dropWhile_suffix _).mem hMem)

/- What is behind the blanks in front of a text. -/
theorem skipBlanks_eq_iff
    {cs rest : List Char}
    (hHead : ∀ c ∈ rest.head?, isBlank c = false) :
    skipBlanks cs = rest ↔
      ∃ blanks, IsBlank blanks ∧ cs = blanks ++ rest := by
  constructor
  · rintro rfl
    exact
      ⟨cs.takeWhile isBlank,
        fun _ hMem => List.mem_takeWhile_imp hMem,
        List.takeWhile_append_dropWhile.symm⟩
  · rintro ⟨blanks, hBlanks, rfl⟩
    rw [skipBlanks, List.dropWhile_append_of_pos hBlanks]
    cases rest with
    | nil => rfl
    | cons c rest =>
        have hFirst := hHead c rfl
        rw [List.dropWhile_cons_of_neg (by simp [hFirst])]

/- What is behind the blanks starts with none. -/
theorem isBlank_head?_skipBlanks (cs : List Char) :
    ∀ c ∈ (skipBlanks cs).head?, isBlank c = false := by
  intro c hHead
  have hFirst := List.head?_dropWhile_not isBlank cs
  rw [Option.mem_def, skipBlanks] at hHead
  rw [hHead] at hFirst
  simpa using hFirst

end Text

------------------------------------------------------------
-- Written Arguments
------------------------------------------------------------

namespace Argument

open Text (IsWhite IsBlank)

/-
  An argument as it is written, next to its body: between
  quotes, or as a token that does not look like a quoted one.
-/
inductive Written : List Char → List Char → Prop where
| quoted
    {body : List Char}
    (hBody : '"' ∉ body) :
    Written ('"' :: (body ++ ['"'])) body
| bare
    {c : Char}
    {rest : List Char}
    (hTab : c ≠ '\t')
    (hQuote : c ≠ '"')
    (hSpace : ' ' ∉ c :: rest) :
    Written (c :: rest) (c :: rest)

/- Whether a text is empty or starts with a space. -/
def IsApart (cs : List Char) : Prop :=
  ∀ c ∈ cs.head?, c = ' '

variable {optional : Bool}
variable {cs text body arg rest : List Char}

/- A written argument does not start with a blank. -/
theorem Written.head?_append
    (hWritten : Written text body)
    (rest : List Char) :
    ∀ c ∈ (text ++ rest).head?, Text.isBlank c = false := by
  cases hWritten with
  | quoted hBody =>
      intro c hHead
      cases hHead
      decide
  | bare hTab hQuote hSpace =>
      intro c hHead
      cases hHead
      rw [List.mem_cons, not_or] at hSpace
      simp [Text.isBlank, hTab, Ne.symm hSpace.1]

/- The text before a quote and the text behind it. -/
theorem quoted_append
    (hBody : '"' ∉ body)
    (hApart : IsApart rest) :
    quoted (body ++ '"' :: rest) = .ok body ∧
      afterQuote (body ++ '"' :: rest) = rest := by
  have hInner : ∀ c ∈ body, decide (c ≠ '"') = true := by
    intro c hMem
    rw [decide_eq_true_eq]
    rintro rfl
    exact hBody hMem
  have hDrop :
      (body ++ '"' :: rest).dropWhile (· ≠ '"') =
        '"' :: rest := by
    rw [List.dropWhile_append_of_pos hInner]
    simp
  have hTake :
      (body ++ '"' :: rest).takeWhile (· ≠ '"') = body := by
    rw [List.takeWhile_append_of_pos hInner]
    simp
  unfold quoted afterQuote
  rw [hDrop, hTake]
  cases rest with
  | nil => exact ⟨rfl, rfl⟩
  | cons c rest =>
      have hSpace : c = ' ' := hApart c rfl
      simp [hSpace]

/- What a quoted argument is read from. -/
theorem quoted_eq_ok_iff :
    quoted cs = .ok body ↔
      '"' ∉ body ∧ IsApart (afterQuote cs) ∧
        cs = body ++ '"' :: afterQuote cs := by
  constructor
  · intro hQuoted
    have hCut :=
      List.takeWhile_append_dropWhile
        (p := fun c => decide (c ≠ '"')) (l := cs)
    have hFront :
        '"' ∉ cs.takeWhile fun c => decide (c ≠ '"') := by
      intro hMem
      simpa using List.mem_takeWhile_imp hMem
    unfold quoted at hQuoted
    unfold afterQuote
    split at hQuoted
    · cases hQuoted
    · rename_i q left hDrop
      have hQuote : q = '"' := by
        have hHead :=
          List.head?_dropWhile_not
            (fun c => decide (c ≠ '"')) cs
        rw [hDrop] at hHead
        simpa using hHead
      subst hQuote
      rw [hDrop] at hCut ⊢
      rw [List.tail_cons]
      split at hQuoted
      · cases hQuoted
        refine ⟨hFront, ?_, hCut.symm⟩
        intro c hHead
        cases hHead
      · split at hQuoted
        · rename_i hSpace
          cases hQuoted
          refine ⟨hFront, ?_, hCut.symm⟩
          intro c hHead
          cases hHead
          exact hSpace
        · cases hQuoted
  · rintro ⟨hBody, hApart, hCut⟩
    rw [hCut]
    exact (quoted_append hBody hApart).1

/- A token and what follows it, up to the first space. -/
theorem token_append
    (hSpace : ' ' ∉ text)
    (hApart : IsApart rest) :
    token (text ++ rest) = text ∧
      afterToken (text ++ rest) = rest := by
  have hInner : ∀ c ∈ text, decide (c ≠ ' ') = true := by
    intro c hMem
    rw [decide_eq_true_eq]
    rintro rfl
    exact hSpace hMem
  unfold token afterToken
  rw [List.takeWhile_append_of_pos hInner,
    List.dropWhile_append_of_pos hInner]
  cases rest with
  | nil => simp
  | cons c rest =>
      have hFirst : c = ' ' := hApart c rfl
      simp [hFirst]

/- A text is cut behind its first token. -/
theorem token_append_afterToken (cs : List Char) :
    token cs ++ afterToken cs = cs ∧
      ' ' ∉ token cs ∧ IsApart (afterToken cs) := by
  refine ⟨List.takeWhile_append_dropWhile, ?_, ?_⟩
  · intro hMem
    simpa using List.mem_takeWhile_imp hMem
  · intro c hHead
    have hFirst :=
      List.head?_dropWhile_not (fun c => decide (c ≠ ' ')) cs
    rw [Option.mem_def, afterToken] at hHead
    rw [hHead] at hFirst
    simpa using hFirst

/-
  When an argument is read, and what is left: nothing but
  blanks was there, or an argument as it is written, which the
  end of the text or a space follows.
-/
theorem next_eq_ok_iff
    {value : Option (List Char)} :
    next optional cs = .ok (value, rest) ↔
      (Text.skipBlanks cs = [] ∧ value = none ∧ rest = []) ∨
        ∃ text body,
          Text.skipBlanks cs = text ++ rest ∧
            Written text body ∧ IsApart rest ∧
            accept optional body = .ok value := by
  rw [next, Step.result_eq_ok_iff]
  constructor
  · rintro ⟨hValue, rfl⟩
    unfold lex at hValue ⊢
    cases hLeft : Text.skipBlanks cs with
    | nil =>
        rw [hLeft] at hValue
        cases hValue
        exact Or.inl ⟨rfl, rfl, rfl⟩
    | cons c left =>
        right
        rw [hLeft] at hValue
        dsimp only at hValue ⊢
        by_cases hQuote : c = '"'
        · rw [if_pos hQuote] at hValue ⊢
          subst hQuote
          rcases bind_eq_ok_iff.mp hValue with
            ⟨inner, hQuoted, hAccept⟩
          rcases quoted_eq_ok_iff.mp hQuoted with
            ⟨hBody, hApart, hCut⟩
          refine
            ⟨_, inner, ?_, Written.quoted hBody, hApart,
              hAccept⟩
          simpa using hCut
        · rw [if_neg hQuote] at hValue ⊢
          rcases token_append_afterToken (c :: left) with
            ⟨hCut, hSpace, hApart⟩
          refine ⟨_, _, hCut.symm, ?_, hApart, hValue⟩
          -- Blanks were skipped, so no tab or space is in front.
          have hBlank :=
            Text.isBlank_head?_skipBlanks cs c (by rw [hLeft]; rfl)
          simp only [Text.isBlank, Bool.or_eq_false_iff,
            beq_eq_false_iff_ne] at hBlank
          have hToken :
              token (c :: left) = c :: token left := by
            simp [token, hBlank.1]
          rw [hToken] at hSpace ⊢
          exact Written.bare hBlank.2 hQuote hSpace
  · rintro (⟨hNone, rfl, rfl⟩ |
        ⟨text, body, hCut, hWritten, hApart, hAccept⟩)
    · unfold lex
      rw [hNone]
      exact ⟨rfl, rfl⟩
    · unfold lex
      rw [hCut]
      cases hWritten with
      | quoted hBody =>
          rcases quoted_append hBody hApart with
            ⟨hQuoted, hAfter⟩
          simp [hQuoted, hAfter, hAccept, bind, Except.bind]
      | bare hTab hQuote hSpace =>
          rcases token_append hSpace hApart with
            ⟨hToken, hAfter⟩
          rw [List.cons_append] at hToken hAfter ⊢
          simp [hQuote, hToken, hAfter, hAccept]

/- A body that is accepted as an argument trims to it. -/
theorem accept_eq_some_iff :
    accept optional body = .ok (some arg) ↔
      Text.trim body = arg ∧ arg ≠ [] := by
  constructor
  · intro hAccept
    rcases eq_trim_of_accept hAccept with ⟨hArg, hSome⟩
    exact ⟨hArg.symm, hSome⟩
  · rintro ⟨rfl, hSome⟩
    unfold accept
    split
    · rename_i hNone
      exact absurd hNone hSome
    · rename_i c more hTrim
      rw [hTrim]

/- White space counts as no argument where none is required. -/
theorem accept_eq_none_iff :
    accept true body = .ok none ↔ IsWhite body := by
  rw [← Text.trim_eq_nil_iff]
  unfold accept
  split
  · rename_i hNone
    simp [hNone]
  · rename_i hSome
    simp [hSome]

/- Only white space is left where nothing remains. -/
theorem remainder_eq_none_iff :
    remainder cs = none ↔ IsWhite cs := by
  have hSkip : IsWhite (Text.skipBlanks cs) ↔ IsWhite cs := by
    constructor
    · intro hRest c hMem
      rw [← List.takeWhile_append_dropWhile
          (p := Text.isBlank) (l := cs),
        List.mem_append] at hMem
      rcases hMem with hFront | hBack
      · exact
          Text.isWhite_of_isBlank (List.mem_takeWhile_imp hFront)
      · exact hRest c hBack
    · intro hWhite c hMem
      exact hWhite c ((List.dropWhile_suffix _).mem hMem)
  rw [← hSkip, ← Text.trimEnd_eq_nil_iff]
  unfold remainder
  split
  · rename_i hNone
    simp [hNone]
  · rename_i hSome
    simp [hSome]

end Argument

end LootFilter
