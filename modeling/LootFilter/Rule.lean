import LootFilter.BaseSet
import LootFilter.Keyword
import LootFilter.Text.Find
import LootFilter.Text.Quoted

/-
  This file defines resolved rules: what a block of a filter
  does, to which base types.

  Key definitions include:
    * `Rule`
    * `Rule.targets`
    * `Rule.changesNames`
    * `Rule.displayName`
    * `Rule.summary`
-/

namespace LootFilter

/-
  A resolved rule.  `baseTypes` is `none` when the block
  selected nothing in particular, which differs from having
  selected nothing at all.
-/
structure Rule where
  sourceLine : Nat
  verb : Verb
  baseTypes : Option BaseSet
  rename : Option String
  vfx : List VisualEffect
deriving DecidableEq, Repr

/- What a rename template holds for the item's present name. -/
def placeholder : String :=
  "$BaseType$"

/- A template with a name in each of its placeholders. -/
def fillTemplate
    (template current : String) : String :=
  String.ofList
    (Text.substitute placeholder.toList current.toList
      template.toList)

namespace Rule

/- The base types that the rule applies to, in order. -/
def targets (rule : Rule) : List String :=
  match rule.baseTypes with
  | none => []
  | some bases => bases.toList

/- Whether the rule applies to a base type. -/
def targetsBase
    (rule : Rule)
    (base : String) : Bool :=
  base ∈ rule.targets

/- Whether applying the rule changes item names. -/
def changesNames (rule : Rule) : Bool :=
  match rule.verb with
  | .renameItem => rule.rename.isSome
  | .hideItem => true
  | .showItem => false

/-
  The name that the rule gives to an item with the given
  name, or `none` if the rule leaves names alone.
-/
def displayName
    (rule : Rule)
    (current : String) : Option String :=
  match rule.verb with
  | .renameItem =>
      rule.rename.map (fillTemplate · current)
  | .hideItem => some ""
  | .showItem => none

/- The rule in one line, for a reader of the log. -/
def summary (rule : Rule) : String :=
  let template :=
    match rule.rename with
    | none => ""
    | some text => ", to " ++ Text.quote text
  let effects :=
    rule.vfx.map (fun effect => ", +" ++ Keyword.text effect)
  Keyword.text rule.verb ++ " @ line " ++
    toString rule.sourceLine ++ " (" ++
    toString rule.targets.length ++ " base types" ++
    template ++ String.join effects ++ ")"

/- The targets of a rule are distinct. -/
theorem nodup_targets (rule : Rule) : rule.targets.Nodup := by
  unfold targets
  split
  · exact List.nodup_nil
  · rename_i bases _
    exact bases.nodup

/- A rule renames exactly when it changes names. -/
theorem isSome_displayName
    (rule : Rule)
    (current : String) :
    (rule.displayName current).isSome = rule.changesNames := by
  unfold displayName changesNames
  cases rule.verb <;> simp

end Rule

end LootFilter
