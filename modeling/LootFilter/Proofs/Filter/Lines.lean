import LootFilter.Proofs.Filter.Blocks
import Mathlib.Data.List.TakeWhile

/-
  What a single line of source is and says.

  The kind of a line is told by its first character, and its
  words are cut at the first space.  Both are described here
  without the reader, and the reader is shown to do the same.

  Main declarations:
    * `Line.IsBreak`, `Line.IsIndented`, `Line.IsHeading`
    * `Text.CutsAtSpace`
    * `Verb.StatedBy`, `Property.StatedBy`
    * `Property.ofContent_eq_ok_iff`
    * `Verb.ofContent_eq_ok_iff`
-/

namespace LootFilter

------------------------------------------------------------
-- Kinds of Lines
------------------------------------------------------------

namespace Line

/- Whether a line ends a block: it is empty or a comment. -/
def IsBreak (line : List Char) : Prop :=
  line = [] ∨ line.head? = some '#'

/- Whether a line starts with a space or a tab. -/
def IsIndented (line : List Char) : Prop :=
  line.head? = some ' ' ∨ line.head? = some '\t'

/- Whether a line is neither of them. -/
def IsHeading (line : List Char) : Prop :=
  ¬ IsBreak line ∧ ¬ IsIndented line

instance (line : List Char) : Decidable (IsBreak line) := by
  unfold IsBreak
  infer_instance

variable {line : List Char}

/- A line that is indented ends no block. -/
theorem IsIndented.not_isBreak
    (hLine : IsIndented line) :
    ¬ IsBreak line := by
  unfold IsIndented at hLine
  unfold IsBreak
  cases line with
  | nil => simp at hLine
  | cons c cs =>
      simp only [List.head?_cons, Option.some.injEq] at hLine ⊢
      rcases hLine with rfl | rfl <;> simp

end Line

namespace LineKind

open Line

variable {line content : List Char}

/- A line that ends a block is read as a gap. -/
theorem ofLine_eq_gap_iff :
    ofLine line = .gap ↔ IsBreak line := by
  cases line with
  | nil => simp [ofLine, IsBreak]
  | cons c cs =>
      simp only [ofLine, IsBreak, List.head?_cons,
        Option.some.injEq]
      split
      · simp [*]
      · split <;> simp [*]

/- An indented line is read as what is left after trimming. -/
theorem ofLine_eq_property_iff :
    ofLine line = .property content ↔
      IsIndented line ∧ content = Text.trimStart line := by
  cases line with
  | nil => simp [ofLine, IsIndented]
  | cons c cs =>
      have hBlank :
          Text.isBlank c = true ↔ c = ' ' ∨ c = '\t' := by
        simp [Text.isBlank]
      simp only [ofLine, IsIndented, List.head?_cons,
        Option.some.injEq, ← hBlank]
      split
      · rename_i hHash
        subst hHash
        have hNot : Text.isBlank '#' = false := by decide
        simp [hNot]
      · split
        · rename_i hIs
          simp [hIs, eq_comm]
        · rename_i hIs
          simp [hIs]

/- Any other line is read as it stands. -/
theorem ofLine_eq_heading_iff :
    ofLine line = .heading content ↔
      IsHeading line ∧ content = line := by
  constructor
  · intro hKind
    refine ⟨⟨?_, ?_⟩, eq_of_heading hKind⟩
    · intro hBreak
      rw [ofLine_eq_gap_iff.mpr hBreak] at hKind
      cases hKind
    · intro hIndented
      rw [ofLine_eq_property_iff.mpr ⟨hIndented, rfl⟩]
        at hKind
      cases hKind
  · rintro ⟨⟨hNoBreak, hNoIndent⟩, rfl⟩
    cases hKind : ofLine content with
    | gap => exact absurd (ofLine_eq_gap_iff.mp hKind) hNoBreak
    | property inner =>
        exact
          absurd (ofLine_eq_property_iff.mp hKind).1 hNoIndent
    | heading whole => rw [eq_of_heading hKind]

end LineKind

------------------------------------------------------------
-- Words of a Line
------------------------------------------------------------

/-
  Whether a text has a word up to its first space, or up to
  its end if it has no space, and the given text after it.
-/
def Text.CutsAtSpace
    (content word rest : List Char) : Prop :=
  ' ' ∉ word ∧
    (content = word ++ ' ' :: rest ∨
      content = word ∧ rest = [])

/- A text that is cut at its first space is cut there here. -/
theorem Property.cut_eq_of_cutsAtSpace
    {content word rest : List Char}
    (hCuts : Text.CutsAtSpace content word rest) :
    Property.cut content = (word, rest) := by
  have hWord : ∀ c ∈ word, decide (c ≠ ' ') = true := by
    intro c hMem
    exact decide_eq_true (fun h => hCuts.1 (h ▸ hMem))
  unfold Property.cut
  rcases hCuts.2 with rfl | ⟨rfl, rfl⟩
  · rw [List.takeWhile_append_of_pos hWord,
      List.dropWhile_append_of_pos hWord]
    simp
  · rw [List.takeWhile_eq_self_iff.mpr hWord,
      List.dropWhile_eq_nil_iff.mpr hWord, List.drop_nil]

/- And a cut is one at the first space. -/
theorem Property.cutsAtSpace_cut (content : List Char) :
    Text.CutsAtSpace content
      (cut content).1 (cut content).2 := by
  unfold cut
  constructor
  · intro hMem
    simpa using List.mem_takeWhile_imp hMem
  · have hWhole :=
      List.takeWhile_append_dropWhile
        (p := fun c => decide (c ≠ ' ')) (l := content)
    cases hDrop : content.dropWhile (· ≠ ' ') with
    | nil =>
        right
        rw [hDrop, List.append_nil] at hWhole
        exact ⟨hWhole.symm, rfl⟩
    | cons c rest =>
        left
        have hFirst :=
          List.head?_dropWhile_not
            (fun c => decide (c ≠ ' ')) content
        rw [hDrop, List.head?_cons] at hFirst
        have hSpace : c = ' ' := by simpa using hFirst
        subst hSpace
        rw [hDrop] at hWhole
        exact hWhole.symm

/- So a text is cut at its first space in one way. -/
theorem Property.cut_eq_iff
    {content word rest : List Char} :
    cut content = (word, rest) ↔
      Text.CutsAtSpace content word rest := by
  constructor
  · intro hCut
    have hCuts := cutsAtSpace_cut content
    rw [hCut] at hCuts
    exact hCuts
  · exact cut_eq_of_cutsAtSpace

/-
  Whether a line states a property: it is indented, and what
  is left after trimming is the keyword, a space, and the
  argument.  An argument that is empty needs no space.
-/
def Property.StatedBy
    (p : Property)
    (line : List Char) : Prop :=
  Line.IsIndented line ∧
    Text.CutsAtSpace (Text.trimStart line)
      (Keyword.text p.kind).toList p.raw.toList

/- Whether a line is the keyword of a verb and nothing else. -/
def Verb.StatedBy
    (verb : Verb)
    (line : List Char) : Prop :=
  (Keyword.text verb).toList = line

------------------------------------------------------------
-- Reading a Line
------------------------------------------------------------

/- A content is read as the property that it is cut into. -/
theorem Property.ofContent_eq_ok_iff
    {content : List Char}
    {p : Property} :
    ofContent content = .ok p ↔
      Text.CutsAtSpace content
        (Keyword.text p.kind).toList p.raw.toList := by
  rw [← cut_eq_iff]
  unfold ofContent
  constructor
  · intro hRead
    dsimp only at hRead
    split at hRead
    · rename_i kind hFind
      cases hRead
      rw [Keyword.find?_eq_some_iff] at hFind
      simp [hFind]
    · cases hRead
  · intro hCut
    simp [hCut]

/- A content is refused for its first word, which is unknown. -/
theorem Property.ofContent_eq_error_iff
    {content : List Char}
    {kind : ParseErrorKind} :
    ofContent content = .error kind ↔
      ∃ word rest,
        Text.CutsAtSpace content word.toList rest ∧
          (∀ known : PropertyKind, Keyword.text known ≠ word) ∧
          kind = .invalidProperty word := by
  unfold ofContent
  dsimp only
  constructor
  · intro hRead
    split at hRead
    · cases hRead
    · rename_i hFind
      cases hRead
      refine ⟨_, (cut content).2, ?_,
        Keyword.find?_eq_none_iff.mp hFind, rfl⟩
      rw [String.toList_ofList]
      exact cutsAtSpace_cut content
  · rintro ⟨word, rest, hCuts, hUnknown, rfl⟩
    rw [cut_eq_of_cutsAtSpace hCuts, String.ofList_toList,
      Keyword.find?_eq_none_iff.mpr hUnknown]

/- A content is read as the verb that it is the keyword of. -/
theorem Verb.ofContent_eq_ok_iff
    {content : List Char}
    {verb : Verb} :
    ofContent content = .ok verb ↔ verb.StatedBy content := by
  constructor
  · exact text_of_ofContent
  · intro hStated
    unfold StatedBy at hStated
    subst hStated
    simp [ofContent]

/- A content is refused as a whole if it is no keyword. -/
theorem Verb.ofContent_eq_error_iff
    {content : List Char}
    {kind : ParseErrorKind} :
    ofContent content = .error kind ↔
      (∀ verb : Verb, ¬ verb.StatedBy content) ∧
        kind = .invalidVerb (String.ofList content) := by
  cases hRead : ofContent content with
  | ok verb =>
      have hStated := ofContent_eq_ok_iff.mp hRead
      simp only [reduceCtorEq, false_iff, not_and]
      intro hUnknown
      exact absurd hStated (hUnknown verb)
  | error found =>
      have hFound :
          found = .invalidVerb (String.ofList content) := by
        unfold ofContent at hRead
        dsimp only at hRead
        split at hRead
        · cases hRead
        · cases hRead
          rfl
      have hUnknown : ∀ verb : Verb, ¬ verb.StatedBy content := by
        intro verb hStated
        rw [ofContent_eq_ok_iff.mpr hStated] at hRead
        cases hRead
      simp only [Except.error.injEq, hFound, hUnknown,
        not_false_eq_true, implies_true, true_and, eq_comm]

/- The keyword of a verb starts a block. -/
theorem Verb.StatedBy.isHeading
    {verb : Verb}
    {line : List Char}
    (hStated : verb.StatedBy line) :
    Line.IsHeading line := by
  unfold StatedBy at hStated
  subst hStated
  unfold Line.IsHeading Line.IsBreak Line.IsIndented
  cases verb <;> decide

end LootFilter
