import LootFilter.Proofs.Filter.Rendering
import Mathlib.Algebra.Ring.Nat

/-
  Blocks that are rendered are read back, and where.

  Reading rendered blocks cuts an argument only if it ends in
  a carriage return.  Without such arguments every block comes
  back as it was, on the line that the blocks before it leave:
  each of them takes one line for its verb, one for each
  property, and one for the break.

  Main declarations:
    * `Instruction.IsPlain`
    * `Instruction.sourceLine_reread`
    * `Instruction.ofSource_renderAll`
-/

namespace LootFilter

namespace Instruction

/- The lines of a block and the break after it. -/
def height (block : Instruction) : Nat :=
  block.properties.length + 2

/-
  Whether no argument of a block holds a line feed or ends in
  a carriage return.
-/
def IsPlain (block : Instruction) : Prop :=
  ∀ p ∈ block.properties,
    '\n' ∉ p.raw.toList ∧ p.raw.toList.getLast? ≠ some '\r'

variable {blocks : List Instruction}

/- Arguments that a line follows are arguments of a block. -/
theorem exists_of_mem_followed
    {p : Property}
    (hMem : p ∈ followed blocks) :
    ∃ block ∈ blocks, p ∈ block.properties := by
  induction blocks using followed.induct with
  | case1 => cases hMem
  | case2 block =>
      exact ⟨block, by simp, List.dropLast_subset _ hMem⟩
  | case3 block next blocks ih =>
      rw [followed, List.mem_append] at hMem
      rcases hMem with hFirst | hRest
      · exact ⟨block, by simp, hFirst⟩
      · rcases ih hRest with ⟨other, hOther, hP⟩
        exact ⟨other, List.mem_cons_of_mem _ hOther, hP⟩

/- A block is read on the line that those before it leave. -/
theorem sourceLine_reread
    {number i : Nat}
    {block : Instruction}
    (hBlock : (reread number blocks)[i]? = some block) :
    block.sourceLine =
      number + ((blocks.take i).map height).sum := by
  induction number, blocks using reread.induct
    generalizing i with
  | case1 number => simp [reread] at hBlock
  | case2 number first =>
      cases i with
      | zero =>
          cases hBlock
          rfl
      | succ i => simp [reread] at hBlock
  | case3 number first next blocks ih =>
      rw [reread] at hBlock
      cases i with
      | zero =>
          cases hBlock
          rfl
      | succ i =>
          rw [List.getElem?_cons_succ] at hBlock
          rw [ih hBlock, List.take_succ_cons, List.map_cons,
            List.sum_cons, height]
          omega

/-
  Rendering plain blocks and reading the text gives as many
  blocks with the same verbs and properties, each one on the
  line after those that the blocks before it take.
-/
theorem ofSource_renderAll
    (hPlain : ∀ block ∈ blocks, block.IsPlain) :
    ∃ again,
      ofSource (renderAll blocks) = .ok again ∧
        List.Forall₂ SameContent again blocks ∧
        ∀ i block,
          again[i]? = some block →
            block.sourceLine =
              1 + ((blocks.take i).map height).sum := by
  have hFree :
      ∀ block ∈ blocks, ∀ p ∈ block.properties,
        '\n' ∉ p.raw.toList :=
    fun block hBlock p hP => (hPlain block hBlock p hP).1
  have hKept :
      ∀ p ∈ followed blocks,
        p.raw.toList.getLast? ≠ some '\r' := by
    intro p hMem
    rcases exists_of_mem_followed hMem with ⟨block, hBlock, hP⟩
    exact (hPlain block hBlock p hP).2
  exact
    ⟨reread 1 blocks, ofLinesFrom_renderAll hFree 1,
      (sameContent_reread_iff 1 blocks).mpr hKept,
      fun _ _ hBlock => sourceLine_reread hBlock⟩

/- Blocks with arguments that are empty or start with blanks. -/
def blankBlocks : List Instruction :=
  [ ⟨7, .renameItem,
      [⟨.newName, ""⟩, ⟨.baseType, "  \"a \rb\" "⟩]⟩,
    ⟨7, .hideItem, []⟩ ]

/- They are kept, and so is a carriage return inside. -/
theorem ofSource_renderAll_blank :
    (∀ block ∈ blankBlocks, block.IsPlain) ∧
      ∃ again,
        ofSource (renderAll blankBlocks) = .ok again ∧
          List.Forall₂ SameContent again blankBlocks ∧
          again.map (·.sourceLine) = [1, 5] := by
  have hPlain : ∀ block ∈ blankBlocks, block.IsPlain := by
    unfold IsPlain
    decide
  rcases ofSource_renderAll hPlain with
    ⟨again, hAgain, hSame, hLines⟩
  refine ⟨hPlain, again, hAgain, hSame, ?_⟩
  rcases List.forall₂_cons_right_iff.mp hSame with
    ⟨first, rest, _, hRest, rfl⟩
  rcases List.forall₂_cons_right_iff.mp hRest with
    ⟨second, more, _, hMore, rfl⟩
  cases hMore
  have hFirst := hLines 0 first rfl
  have hSecond := hLines 1 second rfl
  rw [List.map_cons, List.map_cons, hFirst, hSecond]
  rfl

end Instruction

end LootFilter
