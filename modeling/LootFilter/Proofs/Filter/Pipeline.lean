import LootFilter.Filter
import LootFilter.Proofs.Filter.Blocks
import LootFilter.Proofs.Filter.Conflicts
import Mathlib.Data.Finset.Card

/-
  What becomes of a source, from its text to its rules.

  Reading, resolving and checking stop at their first fault,
  in this order.  The lines in an error are those of verbs,
  since a rule carries the line of its block and the block
  stands there.

  Main declarations:
    * `Catalog.Resolves.evaluateEach_eq`
    * `Catalog.evaluateEach_eq_some`
    * `Instruction.Targets`
    * `Filter.Pipeline`
    * `Filter.pipeline_ofSource`
-/

namespace LootFilter

------------------------------------------------------------
-- Resolving Blocks
------------------------------------------------------------

/- A resolved rule has the line and the verb of its block. -/
theorem Instruction.line_of_evaluate
    {c : Catalog}
    {block : Instruction}
    {rule : Rule}
    (hEvaluate : block.evaluate c = .ok rule) :
    rule.sourceLine = block.sourceLine ∧
      rule.verb = block.verb := by
  rcases evaluate_eq_ok_iff.mp hEvaluate with ⟨s, _, rfl⟩
  exact ⟨rfl, rfl⟩

/- A block that is not resolved is named by its line. -/
theorem Instruction.line_of_evaluate_error
    {c : Catalog}
    {block : Instruction}
    {e : FormatError}
    (hEvaluate : block.evaluate c = .error e) :
    e.line = block.sourceLine := by
  rcases evaluate_eq_error_iff.mp hEvaluate with
    ⟨kind, _, rfl⟩
  rfl

/- Whether rules are those of blocks, one for each. -/
def Catalog.Resolves
    (c : Catalog)
    (blocks : List Instruction)
    (rules : List Rule) : Prop :=
  List.Forall₂
    (fun block rule => block.evaluate c = .ok rule)
    blocks rules

namespace Catalog

variable {c : Catalog} {blocks : List Instruction}
variable {rules : List Rule}

/- Blocks that are all resolved give their rules. -/
theorem Resolves.evaluateEach_eq
    (hResolves : c.Resolves blocks rules) :
    c.evaluateEach blocks = (rules, none) := by
  induction hResolves with
  | nil => rfl
  | cons hFirst _ ih => simp [evaluateEach, hFirst, ih]

/- Rules without a failure are those of the blocks. -/
theorem resolves_of_evaluateEach
    (hEach : c.evaluateEach blocks = (rules, none)) :
    c.Resolves blocks rules := by
  induction blocks generalizing rules with
  | nil =>
      cases hEach
      exact List.Forall₂.nil
  | cons block blocks ih =>
      unfold evaluateEach at hEach
      cases hBlock : block.evaluate c with
      | error e => simp [hBlock] at hEach
      | ok rule =>
          cases hRest : c.evaluateEach blocks with
          | mk rest failure =>
              simp only [hBlock, hRest] at hEach
              cases hEach
              exact List.Forall₂.cons hBlock (ih hRest)

/- Blocks that each have a rule are resolved together. -/
theorem exists_resolves
    (hBlocks :
      ∀ block ∈ blocks, ∃ rule, block.evaluate c = .ok rule) :
    ∃ rules, c.Resolves blocks rules :=
  exists_forall₂_iff.mpr hBlocks

/- The first block that is not resolved ends it all. -/
theorem evaluateEach_eq_some
    {block : Instruction}
    {e : FormatError}
    (hBefore :
      ∀ other ∈ blocks, ∃ rule, other.evaluate c = .ok rule)
    (hBlock : block.evaluate c = .error e)
    (after : List Instruction) :
    (c.evaluateEach (blocks ++ block :: after)).2 =
      some e := by
  induction blocks with
  | nil => simp [evaluateEach, hBlock]
  | cons first blocks ih =>
      rcases hBefore first (by simp) with ⟨rule, hRule⟩
      have hRest :=
        ih (fun other hMem =>
          hBefore other (List.mem_cons_of_mem _ hMem))
      rw [List.cons_append, evaluateEach, hRule]
      exact hRest

/- Some of the rules are those of some of the blocks. -/
theorem Resolves.exists_blocks
    {blocks : List Instruction}
    {rules part : List Rule}
    (hResolves : c.Resolves blocks rules)
    (hPart : part.Sublist rules) :
    ∃ chosen : List Instruction,
      chosen.Sublist blocks ∧ c.Resolves chosen part := by
  induction hPart generalizing blocks with
  | slnil => exact ⟨[], List.nil_sublist _, List.Forall₂.nil⟩
  | cons rule _ ih =>
      cases hResolves with
      | cons hFirst hRest =>
          rcases ih hRest with ⟨chosen, hChosen, hSome⟩
          exact ⟨chosen, hChosen.cons _, hSome⟩
  | cons_cons rule _ ih =>
      cases hResolves with
      | cons hFirst hRest =>
          rcases ih hRest with ⟨chosen, hChosen, hSome⟩
          exact
            ⟨_, hChosen.cons_cons _,
              List.Forall₂.cons hFirst hSome⟩

/- Some of the blocks have some of the rules. -/
theorem Resolves.exists_rules
    {rules : List Rule}
    {blocks chosen : List Instruction}
    (hResolves : c.Resolves blocks rules)
    (hChosen : chosen.Sublist blocks) :
    ∃ part : List Rule,
      part.Sublist rules ∧ c.Resolves chosen part := by
  induction hChosen generalizing rules with
  | slnil => exact ⟨[], List.nil_sublist _, List.Forall₂.nil⟩
  | cons block _ ih =>
      cases hResolves with
      | cons hFirst hRest =>
          rcases ih hRest with ⟨part, hPart, hSome⟩
          exact ⟨part, hPart.cons _, hSome⟩
  | cons_cons block _ ih =>
      cases hResolves with
      | cons hFirst hRest =>
          rcases ih hRest with ⟨part, hPart, hSome⟩
          exact
            ⟨_, hPart.cons_cons _, List.Forall₂.cons hFirst hSome⟩

/- The rules of blocks have the lines of the blocks. -/
theorem Resolves.map_sourceLine
    (hResolves : c.Resolves blocks rules) :
    rules.map (·.sourceLine) = blocks.map (·.sourceLine) := by
  induction hResolves with
  | nil => rfl
  | cons hFirst _ ih =>
      rw [List.map_cons, List.map_cons, ih,
        (Instruction.line_of_evaluate hFirst).1]

end Catalog

------------------------------------------------------------
-- The Pipeline
------------------------------------------------------------

/- Whether a block targets a base type. -/
def Instruction.Targets
    (c : Catalog)
    (block : Instruction)
    (base : String) : Prop :=
  ∃ rule, block.evaluate c = .ok rule ∧ base ∈ rule.targets

/- Whether two blocks, in their order, target a base type. -/
def Catalog.Clash
    (c : Catalog)
    (first second : Instruction)
    (blocks : List Instruction)
    (base : String) : Prop :=
  [first, second].Sublist blocks ∧
    first.Targets c base ∧ second.Targets c base

/- Rules with a common target come from blocks that clash. -/
theorem Catalog.Resolves.exists_clash
    {c : Catalog}
    {blocks : List Instruction}
    {rules : List Rule}
    (hResolves : c.Resolves blocks rules)
    {a b : Rule}
    {base : String}
    (hRules : [a, b].Sublist rules)
    (hA : base ∈ a.targets)
    (hB : base ∈ b.targets) :
    ∃ first second,
      c.Clash first second blocks base ∧
        first.sourceLine = a.sourceLine ∧
        second.sourceLine = b.sourceLine := by
  rcases hResolves.exists_blocks hRules with
    ⟨chosen, hChosen, hPair⟩
  cases hPair with
  | cons hFirst hRest =>
      cases hRest with
      | cons hSecond hNone =>
          cases hNone
          exact
            ⟨_, _, ⟨hChosen, ⟨a, hFirst, hA⟩, b, hSecond, hB⟩,
              (Instruction.line_of_evaluate hFirst).1.symm,
              (Instruction.line_of_evaluate hSecond).1.symm⟩

/- So rules in conflict come from blocks that clash. -/
theorem Catalog.Resolves.clash_of_validate
    {c : Catalog}
    {blocks : List Instruction}
    {rules : List Rule}
    (hResolves : c.Resolves blocks rules)
    {e : ConflictError}
    (hValidate : validate rules = .error e) :
    ∃ first second,
      c.Clash first second blocks e.baseType ∧
        first.sourceLine = e.firstLine ∧
        second.sourceLine = e.secondLine := by
  rcases validate_eq_error hValidate with
    ⟨a, b, hRules, hA, hB, hFirstLine, hSecondLine⟩
  rw [hFirstLine, hSecondLine]
  exact hResolves.exists_clash hRules hA hB

/- Blocks that clash have rules with a common target. -/
theorem Catalog.Resolves.not_disjointTargets
    {c : Catalog}
    {blocks : List Instruction}
    {rules : List Rule}
    (hResolves : c.Resolves blocks rules)
    {first second : Instruction}
    {base : String}
    (hClash : c.Clash first second blocks base) :
    ¬ DisjointTargets rules := by
  intro hDisjoint
  rcases hClash with
    ⟨hBlocks, ⟨a, hFirst, hA⟩, b, hSecond, hB⟩
  rcases hResolves.exists_rules hBlocks with
    ⟨part, hPart, hPair⟩
  cases hPair with
  | cons hOne hRest =>
      cases hRest with
      | cons hTwo hNone =>
          cases hNone
          rw [hFirst] at hOne
          rw [hSecond] at hTwo
          cases hOne
          cases hTwo
          have hApart := hDisjoint.sublist hPart
          rw [List.pairwise_pair] at hApart
          exact hApart base hA hB

/- Targets of rules without common ones are all distinct. -/
theorem DisjointTargets.nodup_flatMap
    {rules : List Rule}
    (hDisjoint : DisjointTargets rules) :
    (rules.flatMap Rule.targets).Nodup := by
  apply List.nodup_flatMap.mpr
  refine ⟨fun rule _ => rule.nodup_targets, ?_⟩
  apply hDisjoint.imp
  intro a b hApart base hA hB
  exact hApart base hA hB

/- A filter has the rules of its blocks, apart in targets. -/
theorem Filter.ofSource_eq_ok
    {c : Catalog}
    {source : String}
    {filter : Filter}
    (hFilter : ofSource c source = .ok filter) :
    ∃ blocks,
      Instruction.ofSource source = .ok blocks ∧
        c.Resolves blocks filter.rules ∧
        DisjointTargets filter.rules := by
  unfold ofSource at hFilter
  split at hFilter
  · cases hFilter
  · rename_i blocks hSource
    split at hFilter
    · cases hFilter
    · rename_i rules hEach
      split at hFilter
      · cases hFilter
      · rename_i hValidate
        cases hFilter
        exact
          ⟨blocks, hSource,
            Catalog.resolves_of_evaluateEach hEach,
            validate_eq_ok_iff.mp hValidate⟩

/-
  What has to become of a source.  The four cases exclude each
  other, and there is no other case.
-/
structure Filter.Pipeline
    (c : Catalog)
    (source : String)
    (result : Except FilterError Filter) : Prop where
  parse :
    ∀ e,
      Instruction.ofSource source = .error e →
        result = .error (.parse e)
  format :
    ∀ before block after e,
      Instruction.ofSource source =
          .ok (before ++ block :: after) →
        (∀ other ∈ before, ∃ rule,
          other.evaluate c = .ok rule) →
        block.evaluate c = .error e →
          result = .error (.format e) ∧
            block.StandsAt source e.line
  conflict :
    ∀ blocks,
      Instruction.ofSource source = .ok blocks →
        (∀ block ∈ blocks, ∃ rule,
          block.evaluate c = .ok rule) →
        (∃ first second base,
          c.Clash first second blocks base) →
          ∃ e,
            result = .error (.conflict e) ∧
              e.firstLine < e.secondLine ∧
              ∃ first second,
                c.Clash first second blocks e.baseType ∧
                  first.StandsAt source e.firstLine ∧
                  second.StandsAt source e.secondLine
  rules :
    ∀ blocks,
      Instruction.ofSource source = .ok blocks →
        (∀ block ∈ blocks, ∃ rule,
          block.evaluate c = .ok rule) →
        (¬ ∃ first second base,
          c.Clash first second blocks base) →
          ∃ f : Filter,
            result = .ok f ∧
              c.Resolves blocks f.rules ∧
              f.rules.Pairwise
                (·.sourceLine < ·.sourceLine) ∧
              DisjointTargets f.rules ∧
              f.summary =
                "Filter(" ++ toString blocks.length ++
                  " rules, " ++
                  toString
                    (f.rules.flatMap
                      Rule.targets).toFinset.card ++
                  " base types)"

/- That is what becomes of it. -/
theorem Filter.pipeline_ofSource
    (c : Catalog)
    (source : String) :
    Pipeline c source (ofSource c source) where
  parse := by
    intro e hSource
    simp only [ofSource, hSource]
  format := by
    intro before block after e hSource hBefore hBlock
    have hEach :=
      Catalog.evaluateEach_eq_some hBefore hBlock after
    constructor
    · unfold ofSource
      simp only [hSource]
      split
      · rename_i found hFound
        rw [hFound] at hEach
        cases hEach
        rfl
      · rename_i hFound
        rw [hFound] at hEach
        cases hEach
    · rw [Instruction.line_of_evaluate_error hBlock]
      exact
        Instruction.standsAt_of_ofSource hSource (by simp)
  conflict := by
    rintro blocks hSource hBlocks
      ⟨first, second, base, hClash⟩
    rcases Catalog.exists_resolves hBlocks with
      ⟨rules, hResolves⟩
    have hOverlap := hResolves.not_disjointTargets hClash
    rw [← validate_eq_ok_iff] at hOverlap
    cases hValidate : validate rules with
    | ok u => exact absurd hValidate hOverlap
    | error e =>
        rcases hResolves.clash_of_validate hValidate with
          ⟨one, two, hFound, hOne, hTwo⟩
        have hOrder :=
          (Instruction.pairwise_of_ofSource hSource).sublist
            hFound.1
        rw [List.pairwise_pair, hOne, hTwo] at hOrder
        refine ⟨e, ?_, hOrder, one, two, hFound, ?_, ?_⟩
        · simp only [ofSource, hSource,
            hResolves.evaluateEach_eq, hValidate]
        · rw [← hOne]
          exact
            Instruction.standsAt_of_ofSource hSource
              (hFound.1.subset (by simp))
        · rw [← hTwo]
          exact
            Instruction.standsAt_of_ofSource hSource
              (hFound.1.subset (by simp))
  rules := by
    intro blocks hSource hBlocks hApart
    rcases Catalog.exists_resolves hBlocks with
      ⟨rules, hResolves⟩
    have hValidate : validate rules = .ok () := by
      cases hFound : validate rules with
      | ok u => rfl
      | error e =>
          rcases hResolves.clash_of_validate hFound with
            ⟨one, two, hClash, _⟩
          exact absurd ⟨one, two, _, hClash⟩ hApart
    have hDisjoint := validate_eq_ok_iff.mp hValidate
    refine ⟨⟨rules⟩, ?_, hResolves, ?_, hDisjoint, ?_⟩
    · simp only [ofSource, hSource,
        hResolves.evaluateEach_eq, hValidate]
    · have hOrder := Instruction.pairwise_of_ofSource hSource
      rw [← List.pairwise_map, ← hResolves.map_sourceLine,
        List.pairwise_map] at hOrder
      exact hOrder
    · rw [summary,
        List.toFinset_card_of_nodup hDisjoint.nodup_flatMap,
        hResolves.length_eq]

end LootFilter
