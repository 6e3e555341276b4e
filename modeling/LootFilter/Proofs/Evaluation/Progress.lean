import LootFilter.Proofs.Evaluation.Failures
import Mathlib.Data.List.DropRight

/-
  Progress of reading arguments.

  What a step of a reader leaves is an end of the text, and a
  shorter one where an argument was read, be it an empty one.
  So there are no more arguments in a list than characters in
  its text.

  Main declarations:
    * `Argument.Steps`
    * `Argument.Progress`
    * `Argument.length_args_readList_le`
    * `Argument.readersProgress_of_text`
-/

namespace LootFilter

------------------------------------------------------------
-- Trimmed Texts
------------------------------------------------------------

namespace Text

/- Trimming the back leaves a front of the text. -/
theorem prefix_trimEnd (cs : List Char) : trimEnd cs <+: cs := by
  rw [trimEnd, ← List.reverse_suffix, List.reverse_reverse]
  exact List.dropWhile_suffix _

/- Trimming takes a piece out of the text. -/
theorem trim_infix (cs : List Char) : trim cs <:+: cs := by
  have hStart : trimStart cs <:+ cs := List.dropWhile_suffix _
  exact (prefix_trimEnd _).isInfix.trans hStart.isInfix

/- No white space is in front of a trimmed text. -/
theorem isWhite_head?_trim (cs : List Char) :
    ∀ c ∈ (trim cs).head?, isWhite c = false := by
  intro c hHead
  rcases prefix_trimEnd (trimStart cs) with ⟨back, hBack⟩
  have hFirst : (trimStart cs).head? = some c := by
    rw [← hBack, List.head?_append]
    change (trim cs).head?.or _ = _
    rw [hHead]
    rfl
  have hNot := List.head?_dropWhile_not isWhite cs
  rw [trimStart] at hFirst
  rw [hFirst] at hNot
  simpa using hNot

/- A text without white space in front keeps its front. -/
theorem trimStart_eq_self
    {cs : List Char}
    (hHead : ∀ c ∈ cs.head?, isWhite c = false) :
    trimStart cs = cs := by
  cases cs with
  | nil => rfl
  | cons c cs =>
      have hFirst := hHead c rfl
      rw [trimStart,
        List.dropWhile_cons_of_neg (by simp [hFirst])]

/- Trimming twice is trimming once. -/
theorem trim_trim (cs : List Char) :
    trim (trim cs) = trim cs := by
  have hFront : trimStart (trim cs) = trim cs :=
    trimStart_eq_self (isWhite_head?_trim cs)
  rw [trim, hFront]
  unfold trim trimEnd
  rw [List.reverse_reverse, List.dropWhile_idempotent]

end Text

namespace Argument

open Text (IsBlank)

variable {optional : Bool}
variable {cs text body arg rest : List Char}

------------------------------------------------------------
-- What a Step Takes
------------------------------------------------------------

/-
  The ways a step can go: over blanks to the end of the text,
  over a text that may or may not be accepted as an argument,
  or into a quoted argument that is spoiled.
-/
inductive Steps
    (optional : Bool)
    (cs : List Char) : Step → Prop where
| exhausted
    (hBlank : IsBlank cs) :
    Steps optional cs ⟨.ok none, []⟩
| passed
    {blanks text body left : List Char}
    (hCut : cs = blanks ++ (text ++ left))
    (hText : ¬ IsBlank text)
    (hBody : body <:+: text) :
    Steps optional cs ⟨accept optional body, left⟩
| spoiled
    {e : LexError}
    {left : List Char}
    (hText : ¬ IsBlank cs)
    (hError : e ≠ .emptyArgument)
    (hLeft : left <:+ cs) :
    Steps optional cs ⟨.error e, left⟩

/- Nothing but blanks is left of blanks alone. -/
theorem skipBlanks_eq_nil_iff :
    Text.skipBlanks cs = [] ↔ IsBlank cs :=
  List.dropWhile_eq_nil_iff

/- A text is cut behind the blanks in front of it. -/
theorem exists_blanks (cs : List Char) :
    ∃ blanks, cs = blanks ++ Text.skipBlanks cs :=
  ⟨cs.takeWhile Text.isBlank,
    List.takeWhile_append_dropWhile.symm⟩

/- A text with something behind its blanks is not blank. -/
theorem not_isBlank_of_skipBlanks
    {c : Char}
    (hSkip : Text.skipBlanks cs = c :: rest) :
    Text.isBlank c = false ∧ ¬ IsBlank cs := by
  constructor
  · apply Text.isBlank_head?_skipBlanks cs c
    rw [hSkip]
    rfl
  · intro hBlank
    rw [skipBlanks_eq_nil_iff.mpr hBlank] at hSkip
    cases hSkip

/- No quoted argument fails for being empty. -/
theorem ne_emptyArgument_of_quoted
    {e : LexError}
    (hQuoted : quoted cs = .error e) :
    e ≠ .emptyArgument := by
  rintro rfl
  unfold quoted at hQuoted
  split at hQuoted
  · cases hQuoted
  · split at hQuoted
    · cases hQuoted
    · split at hQuoted <;> cases hQuoted

/- A token behind blanks is stepped over. -/
theorem steps_token
    {c : Char}
    (hSkip : Text.skipBlanks cs = c :: rest) :
    Steps optional cs
      ⟨accept optional (token (c :: rest)),
        afterToken (c :: rest)⟩ := by
  rcases exists_blanks cs with ⟨blanks, hCut⟩
  rw [hSkip, ← (token_append_afterToken (c :: rest)).1] at hCut
  have hFirst := (not_isBlank_of_skipBlanks hSkip).1
  have hSpace : c ≠ ' ' := by
    rintro rfl
    cases hFirst
  refine Steps.passed hCut ?_ (List.infix_refl _)
  intro hBlank
  have hToken : c ∈ token (c :: rest) := by
    simp [token, hSpace]
  rw [hBlank c hToken] at hFirst
  cases hFirst

/- Steps over arguments go one of the ways. -/
theorem steps_lex (optional : Bool) (cs : List Char) :
    Steps optional cs (lex optional cs) := by
  unfold lex
  split
  · rename_i hSkip
    exact Steps.exhausted (skipBlanks_eq_nil_iff.mp hSkip)
  · rename_i c rest hSkip
    split
    · rename_i hQuote
      subst hQuote
      rcases exists_blanks cs with ⟨blanks, hCut⟩
      rw [hSkip] at hCut
      cases hQuoted : quoted rest with
      | error e =>
          have hLeft : afterQuote rest <:+ cs := by
            rw [hCut]
            exact
              ((afterQuote_suffix rest).trans
                (List.suffix_cons '"' rest)).trans
                  (List.suffix_append blanks _)
          exact
            Steps.spoiled (not_isBlank_of_skipBlanks hSkip).2
              (ne_emptyArgument_of_quoted hQuoted) hLeft
      | ok body =>
          rcases quoted_eq_ok_iff.mp hQuoted with ⟨_, _, hRest⟩
          rw [hRest] at hCut
          have hText : ¬ IsBlank ('"' :: (body ++ ['"'])) := by
            intro hBlank
            have hFirst := hBlank '"' List.mem_cons_self
            cases hFirst
          have hBody : body <:+: '"' :: (body ++ ['"']) :=
            ⟨['"'], ['"'], by simp⟩
          exact Steps.passed (by simpa using hCut) hText hBody
    · exact steps_token hSkip

/- So do steps over tokens. -/
theorem steps_lexBare (cs : List Char) :
    Steps false cs (lexBare cs) := by
  unfold lexBare
  split
  · rename_i hSkip
    exact Steps.exhausted (skipBlanks_eq_nil_iff.mp hSkip)
  · rename_i c rest hSkip
    exact steps_token hSkip

/-
  What is to be known of a step: it leaves an end of the text,
  which is shorter if an argument was read, be it empty.  The
  argument is trimmed and comes from what was taken.  Blanks
  alone are no argument, and nothing else is where one is
  required.
-/
structure Progress
    (optional : Bool)
    (cs : List Char)
    (s : Step) : Prop where
  suffix : s.left <:+ cs
  shorter :
    ∀ arg,
      s.value = .ok (some arg) → s.left.length < cs.length
  shorterEmpty :
    s.value = .error .emptyArgument ∨
        s.value = .ok none ∧ ¬ IsBlank cs →
      s.left.length < cs.length
  argument :
    ∀ arg,
      s.value = .ok (some arg) →
        arg ≠ [] ∧ Text.trim arg = arg ∧
          ∃ taken, cs = taken ++ s.left ∧ arg <:+: taken
  exhausted :
    optional = false → (s.value = .ok none ↔ IsBlank cs)

/- What is stepped over makes what is left shorter. -/
theorem length_lt_of_passed
    {blanks left : List Char}
    (hCut : cs = blanks ++ (text ++ left))
    (hText : ¬ IsBlank text) :
    left.length < cs.length := by
  have hSome : text ≠ [] := by
    rintro rfl
    exact hText (List.forall_mem_nil _)
  have hLength := List.length_pos_of_ne_nil hSome
  rw [hCut, List.length_append, List.length_append]
  omega

/- Every step makes progress. -/
theorem Steps.progress
    {s : Step}
    (hSteps : Steps optional cs s) :
    Progress optional cs s := by
  cases hSteps with
  | exhausted hBlank =>
      exact
        { suffix := List.nil_suffix
          shorter := by
            intro arg hSome
            cases hSome
          shorterEmpty := by
            rintro (hEmpty | ⟨_, hNot⟩)
            · cases hEmpty
            · exact absurd hBlank hNot
          argument := by
            intro arg hSome
            cases hSome
          exhausted := fun _ => ⟨fun _ => hBlank, fun _ => rfl⟩ }
  | @passed blanks text body left hCut hText hBody =>
      have hShorter := length_lt_of_passed hCut hText
      have hNot : ¬ IsBlank cs := by
        intro hBlank
        apply hText
        intro c hMem
        apply hBlank c
        rw [hCut]
        simp [hMem]
      refine
        { suffix := ?_
          shorter := fun _ _ => hShorter
          shorterEmpty := fun _ => hShorter
          argument := ?_
          exhausted := ?_ }
      · rw [hCut, ← List.append_assoc]
        exact List.suffix_append _ _
      · intro arg hSome
        rcases accept_eq_some_iff.mp hSome with ⟨rfl, hArg⟩
        refine ⟨hArg, Text.trim_trim body, blanks ++ text, ?_, ?_⟩
        · rw [hCut, List.append_assoc]
        · exact
            ((Text.trim_infix body).trans hBody).trans
              (List.suffix_append blanks text).isInfix
      · rintro rfl
        refine ⟨fun hNone => ?_, fun hBlank => absurd hBlank hNot⟩
        unfold accept at hNone
        split at hNone <;> cases hNone
  | @spoiled e left hText hError hLeft =>
      exact
        { suffix := hLeft
          shorter := by
            intro arg hSome
            cases hSome
          shorterEmpty := by
            rintro (hEmpty | ⟨hNone, _⟩)
            · cases hEmpty
              exact absurd rfl hError
            · cases hNone
          argument := by
            intro arg hSome
            cases hSome
          exhausted := by
            intro _
            refine
              ⟨fun hNone => ?_,
                fun hBlank => absurd hBlank hText⟩
            cases hNone }

------------------------------------------------------------
-- Lists Are No Longer Than Their Text
------------------------------------------------------------

variable {kind : PropertyKind}

/- Behind an argument, each further one takes a character. -/
theorem length_args_readRest_le
    (kind : PropertyKind)
    (cs : List Char) :
    (readRest kind cs).args.length ≤ cs.length := by
  fun_induction readRest kind cs with
  | case1 cs e hNext => exact Nat.zero_le _
  | case2 cs rest hNext => exact Nat.zero_le _
  | case3 cs arg rest hNext ih =>
      have hShorter := next_length_lt hNext
      simp only [Reading.cons, List.length_cons]
      omega

/- And so does the first one. -/
theorem length_args_readList_le
    (kind : PropertyKind)
    (cs : List Char) :
    (readList kind cs).args.length ≤ cs.length := by
  unfold readList
  split
  · exact Nat.zero_le _
  · rename_i arg rest hRequired
    have hShorter :=
      next_length_lt (required_eq_ok_iff.mp hRequired)
    have hRest := length_args_readRest_le kind rest
    simp only [Reading.cons, List.length_cons]
    omega

/-
  What is to be known of the readers on a text.  They make
  progress in every step, an operator that is not there costs
  nothing, and properties by name and by class feed a list of
  no more arguments than characters to their steps.
-/
structure ReadersProgress (cs : List Char) : Prop where
  next : ∀ optional, Progress optional cs (lex optional cs)
  bare : Progress false cs (lexBare cs)
  operators :
    (operator cs).2 <:+ cs ∧
      ((operator cs).1 = none → (operator cs).2 = cs)
  byName :
    (readList .baseType (operator cs).2).args.length ≤
        cs.length ∧
      ∀ c verb s p,
        p.kind = .baseType →
          p.raw.toList = cs →
            Selection.apply c verb s p =
              (readList .baseType (operator cs).2).feed
                (Selection.addFragment c (operator cs).1) s
  byClass :
    (readList .itemClass cs).args.length ≤ cs.length ∧
      ∀ c verb s p,
        p.kind = .itemClass →
          p.raw.toList = cs →
            Selection.apply c verb s p =
              (readList .itemClass cs).feed
                (Selection.addClassName c) s

/- The readers make progress on every text. -/
theorem readersProgress_of_text (cs : List Char) :
    ReadersProgress cs where
  next optional := (steps_lex optional cs).progress
  bare := (steps_lexBare cs).progress
  operators := by
    refine ⟨operator_suffix cs, ?_⟩
    unfold operator
    dsimp only
    split
    · intro hNone
      cases hNone
    · exact fun _ => rfl
  byName := by
    have hLength :=
      length_args_readList_le .baseType (operator cs).2
    refine ⟨hLength.trans (operator_suffix cs).length_le, ?_⟩
    rintro c verb s p hKind rfl
    unfold Selection.apply
    rw [hKind]
    exact feed_eq _ _ _ _
  byClass := by
    refine ⟨length_args_readList_le .itemClass cs, ?_⟩
    rintro c verb s p hKind rfl
    unfold Selection.apply
    rw [hKind]
    exact feed_eq _ _ _ _

end Argument

end LootFilter
