import LootFilter.Block
import LootFilter.Proofs.Outcome

/-
  Where the blocks of a source stand.

  Each block that is read starts at a line that is its verb,
  and carries the number of that line.  The induction is on
  the lines that are left; a block that is still open started
  before them.

  Main declarations:
    * `Instruction.StandsAt`
    * `Instruction.ofLinesFrom_cons_eq_ok`
    * `Instruction.headings_ofLinesFrom`
    * `Instruction.standsAt_of_ofSource`
    * `Instruction.pairwise_of_ofSource`
-/

namespace LootFilter

/- A line of source that is a heading is its whole content. -/
theorem LineKind.eq_of_heading
    {line content : List Char}
    (hKind : LineKind.ofLine line = .heading content) :
    content = line := by
  unfold LineKind.ofLine at hKind
  split at hKind
  · cases hKind
  · split at hKind
    · cases hKind
    · split at hKind
      · cases hKind
      · cases hKind
        rfl

/- The content of a heading is the text of its verb. -/
theorem Verb.text_of_ofContent
    {content : List Char}
    {verb : Verb}
    (hVerb : Verb.ofContent content = .ok verb) :
    (Keyword.text verb).toList = content := by
  unfold Verb.ofContent at hVerb
  dsimp only at hVerb
  split at hVerb
  · rename_i found hFind
    cases hVerb
    rw [Keyword.find?_eq_some_iff.mp hFind,
      String.toList_ofList]
  · cases hVerb

namespace Instruction

/-
  Whether a line is the one with the verb of a block: its
  number is that of the block, and its text is the keyword
  and nothing else.
-/
def StandsAt
    (block : Instruction)
    (source : String)
    (line : Nat) : Prop :=
  line = block.sourceLine ∧ 1 ≤ line ∧
    (Text.lines source.toList)[line - 1]? =
      some (Keyword.text block.verb).toList

/- Whether a block starts among lines with given numbers. -/
def StartsIn
    (block : Instruction)
    (number : Nat)
    (lines : List (List Char)) : Prop :=
  number ≤ block.sourceLine ∧
    lines[block.sourceLine - number]? =
      some (Keyword.text block.verb).toList

/- A block that starts in later lines starts in all of them. -/
theorem StartsIn.cons
    {block : Instruction}
    {number : Nat}
    {lines : List (List Char)}
    (hStarts : block.StartsIn (number + 1) lines)
    (line : List Char) :
    block.StartsIn number (line :: lines) := by
  rcases hStarts with ⟨hNumber, hLine⟩
  refine ⟨by omega, ?_⟩
  have hNext :
      block.sourceLine - number =
        block.sourceLine - (number + 1) + 1 := by
    omega
  rw [hNext, List.getElem?_cons_succ]
  exact hLine

/- Whether a block is an open one, maybe with more properties. -/
def Continues
    (block : Instruction)
    (opened : Option Instruction) : Prop :=
  ∃ before,
    opened = some before ∧
      before.sourceLine = block.sourceLine ∧
      before.verb = block.verb

/-
  What reading one more line comes to: a gap closes the open
  block, a property joins it, and a heading opens a new one.
-/
theorem ofLinesFrom_cons_eq_ok
    {number : Nat}
    {opened : Option Instruction}
    {line : List Char}
    {lines : List (List Char)}
    {blocks : List Instruction}
    (hBlocks :
      ofLinesFrom number opened (line :: lines) = .ok blocks) :
    (LineKind.ofLine line = .gap ∧ ∃ rest,
      ofLinesFrom (number + 1) none lines = .ok rest ∧
        blocks = opened.toList ++ rest) ∨
    (∃ content before p,
      LineKind.ofLine line = .property content ∧
        opened = some before ∧
        Property.ofContent content = .ok p ∧
        ofLinesFrom (number + 1) (some (before.push p)) lines =
          .ok blocks) ∨
    ∃ content verb,
      LineKind.ofLine line = .heading content ∧
        opened = none ∧
        Verb.ofContent content = .ok verb ∧
        ofLinesFrom (number + 1) (some ⟨number, verb, []⟩)
          lines = .ok blocks := by
  unfold ofLinesFrom at hBlocks
  split at hBlocks
  · rename_i hKind
    rcases map_eq_ok_iff.mp hBlocks with ⟨rest, hRest, hEq⟩
    exact Or.inl ⟨hKind, rest, hRest, hEq.symm⟩
  · cases hBlocks
  · rename_i content before hKind
    split at hBlocks
    · cases hBlocks
    · rename_i p hRead
      right
      left
      exact ⟨content, before, p, hKind, rfl, hRead, hBlocks⟩
  · cases hBlocks
  · rename_i content hKind
    split at hBlocks
    · cases hBlocks
    · rename_i verb hVerb
      right
      right
      exact ⟨content, verb, hKind, rfl, hVerb, hBlocks⟩

/-
  Blocks are read in the order of their lines, and each one
  continues the open block or starts in the lines that are
  left.
-/
theorem headings_ofLinesFrom
    {number : Nat}
    {opened : Option Instruction}
    {lines : List (List Char)}
    {blocks : List Instruction}
    (hOpened :
      ∀ before, opened = some before →
        before.sourceLine < number)
    (hBlocks :
      ofLinesFrom number opened lines = .ok blocks) :
    blocks.Pairwise (·.sourceLine < ·.sourceLine) ∧
      ∀ block ∈ blocks,
        block.Continues opened ∨
          block.StartsIn number lines := by
  induction lines generalizing number opened blocks with
  | nil =>
      cases hBlocks
      cases opened with
      | none => simp
      | some before =>
          refine ⟨List.pairwise_singleton _ _, ?_⟩
          intro block hMem
          rw [Option.toList_some, List.mem_singleton] at hMem
          exact Or.inl ⟨before, rfl, by rw [hMem], by rw [hMem]⟩
  | cons line lines ih =>
      rcases ofLinesFrom_cons_eq_ok hBlocks with
        ⟨_, rest, hRest, rfl⟩ | ⟨_, before, p, _, rfl, _, hRest⟩ |
          ⟨content, verb, hKind, rfl, hVerb, hRest⟩
      · -- The block that is closed is before the rest.
        rcases ih (by simp) hRest with ⟨hOrder, hStarts⟩
        have hLater :
            ∀ block ∈ rest,
              block.StartsIn (number + 1) lines := by
          intro block hMem
          rcases hStarts block hMem with
            ⟨_, hNone, _⟩ | hStart
          · cases hNone
          · exact hStart
        constructor
        · apply List.pairwise_append.mpr
          refine ⟨?_, hOrder, ?_⟩
          · cases opened <;> simp
          · intro before hBefore block hMem
            rw [Option.mem_toList] at hBefore
            have hLt := hOpened before hBefore
            have hLe := (hLater block hMem).1
            omega
        · intro block hMem
          rcases List.mem_append.mp hMem with hHead | hTail
          · rw [Option.mem_toList] at hHead
            exact Or.inl ⟨block, hHead, rfl, rfl⟩
          · exact Or.inr ((hLater block hTail).cons line)
      · have hPushed :
            ∀ b, some (before.push p) = some b →
              b.sourceLine < number + 1 := by
          intro b hSame
          cases hSame
          exact Nat.lt_succ_of_lt (hOpened before rfl)
        rcases ih hPushed hRest with ⟨hOrder, hStarts⟩
        refine ⟨hOrder, ?_⟩
        intro block hMem
        rcases hStarts block hMem with
          ⟨_, hSame, hLine, hVerb⟩ | hStart
        · cases hSame
          exact Or.inl ⟨before, rfl, hLine, hVerb⟩
        · exact Or.inr (hStart.cons line)
      · have hNew :
            ∀ b,
              some (⟨number, verb, []⟩ : Instruction) = some b →
                b.sourceLine < number + 1 := by
          intro b hSame
          cases hSame
          exact Nat.lt_succ_self number
        rcases ih hNew hRest with ⟨hOrder, hStarts⟩
        refine ⟨hOrder, ?_⟩
        intro block hMem
        rcases hStarts block hMem with
          ⟨_, hSame, hLine, hText⟩ | hStart
        · cases hSame
          have hFirst : block.sourceLine - number = 0 :=
            Nat.sub_eq_zero_of_le (Nat.le_of_eq hLine.symm)
          right
          refine ⟨Nat.le_of_eq hLine, ?_⟩
          rw [hFirst, List.getElem?_cons_zero, ← hText,
            Verb.text_of_ofContent hVerb,
            LineKind.eq_of_heading hKind]
        · exact Or.inr (hStart.cons line)

variable {source : String} {blocks : List Instruction}

/- The blocks of a source stand at lines with their verbs. -/
theorem standsAt_of_ofSource
    (hSource : ofSource source = .ok blocks)
    {block : Instruction}
    (hMem : block ∈ blocks) :
    block.StandsAt source block.sourceLine := by
  rcases (headings_ofLinesFrom (by simp) hSource).2 block hMem
    with ⟨_, hNone, _⟩ | ⟨hNumber, hLine⟩
  · cases hNone
  · exact ⟨rfl, hNumber, hLine⟩

/- The blocks of a source come in the order of their lines. -/
theorem pairwise_of_ofSource
    (hSource : ofSource source = .ok blocks) :
    blocks.Pairwise (·.sourceLine < ·.sourceLine) :=
  (headings_ofLinesFrom (by simp) hSource).1

end Instruction

end LootFilter
