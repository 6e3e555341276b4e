import LootFilter.Proofs.Evaluation.Alone
import LootFilter.Proofs.Evaluation.Meaning
import Mathlib.Data.List.Perm.Basic

/-
  The properties of a block in another order.

  A selection is told by what its properties list: base types
  by name come from the properties by name alone, and the same
  goes for classes, names and effects.  So the order of the
  properties of one kind decides the order of what they list,
  and the order of different kinds decides nothing.

  Main declarations:
    * `Property.SameByKind`
    * `Selection.Describes.eq_of_sameByKind`
    * `Rule.SameUpToOrder`
    * `Instruction.Means.sameUpToOrder`
    * `Instruction.OrderFree`
    * `Instruction.orderFree_evaluate`
-/

namespace LootFilter

------------------------------------------------------------
-- Properties of a Kind
------------------------------------------------------------

namespace Property

/- The properties of a kind, in their order. -/
def ofKind
    (kind : PropertyKind)
    (properties : List Property) : List Property :=
  properties.filter (·.kind = kind)

/-
  Whether properties of the same kind come in the same order,
  wherever they stand among the others.
-/
def SameByKind (properties others : List Property) : Prop :=
  ∀ kind, ofKind kind properties = ofKind kind others

variable {α : Type} {kind : PropertyKind}
variable {properties others : List Property}

/- What one kind of property lists is listed by that kind. -/
theorem flatMap_ofKind
    {f : Property → List α}
    (hOther : ∀ p, p.kind ≠ kind → f p = [])
    (properties : List Property) :
    (ofKind kind properties).flatMap f =
      properties.flatMap f := by
  unfold ofKind
  induction properties with
  | nil => rfl
  | cons p properties ih =>
      rw [List.flatMap_cons, ← ih]
      by_cases hKind : p.kind = kind
      · simp [hKind]
      · simp [hKind, hOther p hKind]

/- The same for what each property says at most once. -/
theorem filterMap_ofKind
    {f : Property → Option α}
    (hOther : ∀ p, p.kind ≠ kind → f p = none)
    (properties : List Property) :
    (ofKind kind properties).filterMap f =
      properties.filterMap f := by
  unfold ofKind
  rw [List.filterMap_filter]
  congr 1
  funext p
  by_cases hKind : p.kind = kind
  · simp [hKind]
  · simp [hKind, hOther p hKind]

/- With the same order by kind, the same kinds are there. -/
theorem SameByKind.exists_kind_iff
    (hSame : SameByKind properties others) :
    (∃ p ∈ properties, p.kind = kind) ↔
      ∃ p ∈ others, p.kind = kind := by
  have hMem :
      ∀ {ps : List Property} {p : Property},
        p ∈ ps ∧ p.kind = kind ↔ p ∈ ofKind kind ps := by
    simp [ofKind]
  simp only [hMem, hSame kind]

/- A property may change places with those of other kinds. -/
theorem sameByKind_move
    {p : Property}
    {between : List Property}
    (hBetween : ∀ q ∈ between, q.kind ≠ p.kind)
    (front back : List Property) :
    SameByKind (front ++ p :: (between ++ back))
      (front ++ (between ++ p :: back)) := by
  intro kind
  unfold ofKind
  simp only [List.filter_append, List.filter_cons]
  by_cases hKind : p.kind = kind
  · have hNone :
        between.filter (fun q => decide (q.kind = kind)) =
          [] := by
      rw [List.filter_eq_nil_iff]
      intro q hMem
      simpa [← hKind] using hBetween q hMem
    simp [hKind, hNone]
  · simp [hKind]

end Property

------------------------------------------------------------
-- Selections by Kind
------------------------------------------------------------

namespace Catalog

open Property (SameByKind)

variable {properties others : List Property}

/- Base types are listed by name by properties by name. -/
theorem named_of_sameByKind
    (c : Catalog)
    (hSame : SameByKind properties others) :
    c.named properties = c.named others := by
  have hOther :
      ∀ p : Property, p.kind ≠ .baseType →
        (p.fragments.flatMap fun fragment =>
          c.matching fragment.1 fragment.2) = [] := by
    intro p hKind
    unfold Property.fragments
    cases hIs : p.kind <;> simp_all
  unfold named
  rw [← Property.flatMap_ofKind hOther properties,
    hSame .baseType, Property.flatMap_ofKind hOther]

/- And by class by properties by class. -/
theorem classed_of_sameByKind
    (c : Catalog)
    (hSame : SameByKind properties others) :
    c.classed properties = c.classed others := by
  have hOther :
      ∀ p : Property, p.kind ≠ .itemClass →
        p.classes.flatMap c.members = [] := by
    intro p hKind
    unfold Property.classes
    cases hIs : p.kind <;> simp_all
  unfold classed
  rw [← Property.flatMap_ofKind hOther properties,
    hSame .itemClass, Property.flatMap_ofKind hOther]

end Catalog

namespace Property

variable {properties others : List Property}

/- Templates are given by properties of their own kind. -/
theorem SameByKind.templates
    (hSame : SameByKind properties others) :
    properties.filterMap (·.template?) =
      others.filterMap (·.template?) := by
  have hOther :
      ∀ p : Property, p.kind ≠ .newName →
        p.template? = none := by
    intro p hKind
    unfold template?
    cases hIs : p.kind <;> simp_all
  rw [← filterMap_ofKind hOther properties, hSame .newName,
    filterMap_ofKind hOther]

/- And so are visual effects. -/
theorem SameByKind.effects
    (hSame : SameByKind properties others) :
    properties.filterMap (·.effect?) =
      others.filterMap (·.effect?) := by
  have hOther :
      ∀ p : Property, p.kind ≠ .addVfx →
        p.effect? = none := by
    intro p hKind
    unfold effect?
    cases hIs : p.kind <;> simp_all
  rw [← filterMap_ofKind hOther properties, hSame .addVfx,
    filterMap_ofKind hOther]

end Property

/-
  A selection is told by its properties of each kind.  Sets
  that are not given are told apart from empty ones by the
  kinds that are there.
-/
theorem Selection.Describes.eq_of_sameByKind
    {c : Catalog}
    {properties others : List Property}
    {s t : Selection}
    (hDescribes : Describes c properties s)
    (hOther : Describes c others t)
    (hSame : Property.SameByKind properties others) :
    s = t := by
  have hOption :
      ∀ {a b : Option BaseSet},
        (a.isSome = true ↔ b.isSome = true) →
          a.getD BaseSet.empty = b.getD BaseSet.empty →
            a = b := by
    intro a b hSome hGet
    cases a <;> cases b <;> simp_all
  have hNamed : s.named = t.named := by
    apply hOption
    · rw [hDescribes.named_isSome, hOther.named_isSome]
      exact hSame.exists_kind_iff
    · rw [hDescribes.named, hOther.named,
        c.named_of_sameByKind hSame]
  have hClassed : s.classed = t.classed := by
    apply hOption
    · rw [hDescribes.classed_isSome, hOther.classed_isSome]
      exact hSame.exists_kind_iff
    · rw [hDescribes.classed, hOther.classed,
        c.classed_of_sameByKind hSame]
  have hRename : s.rename = t.rename := by
    rw [hDescribes.rename, hOther.rename, hSame.templates]
  have hVfx : s.vfx = t.vfx := by
    rw [hDescribes.vfx, hOther.vfx, hSame.effects]
  cases s
  cases t
  simp_all

------------------------------------------------------------
-- Rules up to Order
------------------------------------------------------------

/-
  Whether two rules of a block select the same base types and
  carry the same effects, in any order.  A rule that selects
  none in particular differs from one that selects none.
-/
structure Rule.SameUpToOrder (a b : Rule) : Prop where
  sourceLine : a.sourceLine = b.sourceLine
  verb : a.verb = b.verb
  unselective : a.baseTypes = none ↔ b.baseTypes = none
  targets : ∀ base, base ∈ a.targets ↔ base ∈ b.targets
  effects : a.vfx.Perm b.vfx

namespace Instruction

variable {c : Catalog} {block : Instruction} {rule : Rule}
variable {others : List Property}

/-
  What a block means does not hang on the order of its
  properties, up to the order of what is meant.
-/
theorem Means.sameUpToOrder
    {a b : Rule}
    (hPerm : block.properties.Perm others)
    (hMeans : Means c block a)
    (hOther : Means c (block.withProperties others) b)
    (hLine : a.sourceLine = b.sourceLine)
    (hVerb : a.verb = b.verb) :
    a.SameUpToOrder b := by
  have hHas :
      ∀ kind,
        block.Has kind ↔
          (block.withProperties others).Has kind := by
    intro kind
    simp only [Has, withProperties, hPerm.mem_iff]
  have hNames :
      ∀ base,
        block.Names c base ↔
          (block.withProperties others).Names c base := by
    intro base
    simp only [Names, withProperties, hPerm.mem_iff]
  have hClasses :
      ∀ base,
        block.Classes c base ↔
          (block.withProperties others).Classes c base := by
    intro base
    simp only [Classes, withProperties, hPerm.mem_iff]
  have hNone : a.baseTypes = none ↔ b.baseTypes = none := by
    rw [hMeans.unselective, hOther.unselective, hHas, hHas]
  refine ⟨hLine, hVerb, hNone, ?_, ?_⟩
  · intro base
    by_cases hBases : a.baseTypes = none
    · simp [Rule.targets, hBases, hNone.mp hBases]
    · rw [hMeans.target hBases,
        hOther.target (mt hNone.mpr hBases), hHas, hHas,
        hNames, hClasses]
  · rw [hMeans.effects, hOther.effects]
    exact hPerm.filterMap _

------------------------------------------------------------
-- Order of Properties
------------------------------------------------------------

/-
  What has to be the same for the properties of a block in any
  other order.  A property by class restricts the block alike
  before, between and after those by name, since it may move
  past every property of another kind.
-/
structure OrderFree
    (c : Catalog)
    (block : Instruction) : Prop where
  succeeds :
    ∀ others,
      block.properties.Perm others →
        ((∃ rule, block.evaluate c = .ok rule) ↔
          ∃ rule,
            (block.withProperties others).evaluate c = .ok rule)
  alike :
    ∀ others a b,
      block.properties.Perm others →
        block.evaluate c = .ok a →
          (block.withProperties others).evaluate c = .ok b →
            a.SameUpToOrder b
  same :
    ∀ others rule,
      block.properties.Perm others →
        Property.SameByKind block.properties others →
          (block.evaluate c = .ok rule ↔
            (block.withProperties others).evaluate c = .ok rule)
  classes :
    ∀ front p between back,
      block.properties = front ++ p :: (between ++ back) →
        p.kind = .itemClass →
          (∀ q ∈ between, q.kind ≠ .itemClass) →
            ∀ rule,
              block.evaluate c = .ok rule ↔
                (block.withProperties
                  (front ++ (between ++ p :: back))).evaluate c =
                    .ok rule

/- A block is read in any order. -/
theorem exists_evaluate_perm
    (hPerm : block.properties.Perm others) :
    (∃ rule, block.evaluate c = .ok rule) ↔
      ∃ rule,
        (block.withProperties others).evaluate c = .ok rule := by
  rw [exists_evaluate_iff, exists_evaluate_iff]
  simp only [withProperties, hPerm.mem_iff]
  rfl

/- With the same order by kind, the rule is the same. -/
theorem evaluate_eq_ok_iff_of_sameByKind
    (hPerm : block.properties.Perm others)
    (hSame : Property.SameByKind block.properties others) :
    block.evaluate c = .ok rule ↔
      (block.withProperties others).evaluate c = .ok rule := by
  have hEq :
      ∀ a b,
        block.evaluate c = .ok a →
          (block.withProperties others).evaluate c = .ok b →
            a = b := by
    intro a b hA hB
    rcases exists_describes_of_evaluate hA with
      ⟨s, hDescribes, rfl⟩
    rcases exists_describes_of_evaluate hB with
      ⟨t, hOther, rfl⟩
    rw [hDescribes.eq_of_sameByKind hOther hSame]
    rfl
  constructor
  · intro hRule
    rcases (exists_evaluate_perm hPerm).mp ⟨rule, hRule⟩ with
      ⟨other, hOther⟩
    rw [hEq rule other hRule hOther]
    exact hOther
  · intro hRule
    rcases (exists_evaluate_perm hPerm).mpr ⟨rule, hRule⟩ with
      ⟨other, hOther⟩
    rw [← hEq other rule hOther hRule]
    exact hOther

/- Nothing of that hangs on the order. -/
theorem orderFree_evaluate
    (c : Catalog)
    (block : Instruction) :
    OrderFree c block where
  succeeds others hPerm := exists_evaluate_perm hPerm
  alike := by
    intro others a b hPerm hA hB
    rcases exists_describes_of_evaluate hA with
      ⟨s, hDescribes, rfl⟩
    rcases exists_describes_of_evaluate hB with
      ⟨t, hOther, rfl⟩
    exact
      Means.sameUpToOrder hPerm (means_of_describes hDescribes)
        (means_of_describes hOther) rfl rfl
  same others rule hPerm hSame :=
    evaluate_eq_ok_iff_of_sameByKind hPerm hSame
  classes := by
    intro front p between back hCut hKind hBetween rule
    apply evaluate_eq_ok_iff_of_sameByKind
    · rw [hCut]
      exact List.perm_middle.symm.append_left front
    · rw [hCut]
      apply Property.sameByKind_move
      rw [hKind]
      exact hBetween

/- The class of a block may come after the names in it. -/
example :
    (capBlock.withProperties
        [ ⟨.newName, "Hat"⟩,
          ⟨.baseType, "\"War Cap\" Cap"⟩,
          ⟨.newName, "\"My Cap\""⟩,
          ⟨.itemClass, "Helmet"⟩,
          ⟨.addVfx, "Beam"⟩ ]).evaluate capCatalog =
      capBlock.evaluate capCatalog := by
  decide +kernel

end Instruction

end LootFilter
