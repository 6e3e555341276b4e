import LootFilter.Keyword

/-
  This file defines the blocks of a filter's source: a verb
  with its indented properties, whose arguments are still
  unread text, and the rendering of blocks as source.

  Key definitions include:
    * `Property`
    * `Property.render`
    * `Instruction`
    * `Instruction.render`
    * `Instruction.renderAll`
-/

namespace LootFilter

------------------------------------------------------------
-- Properties
------------------------------------------------------------

/-
  One indented line: its keyword, and everything after the
  first space as it stands.
-/
structure Property where
  kind : PropertyKind
  raw : String
deriving DecidableEq, Repr

/- The line's content: the keyword, a space, the argument. -/
def Property.render (p : Property) : String :=
  if p.raw = "" then
    Keyword.text p.kind
  else
    Keyword.text p.kind ++ " " ++ p.raw

------------------------------------------------------------
-- Instructions
------------------------------------------------------------

/-
  One block.  `sourceLine` is the number of the line with
  the verb, counted from one.
-/
structure Instruction where
  sourceLine : Nat
  verb : Verb
  properties : List Property
deriving DecidableEq, Repr

namespace Instruction

/- The block with one more property at its end. -/
def push
    (block : Instruction)
    (p : Property) : Instruction :=
  { block with properties := block.properties ++ [p] }

/-
  The block as source: the verb on a line of its own, then
  each property on a line indented by four spaces.
-/
def render (block : Instruction) : String :=
  block.properties.foldl
    (fun text p => text ++ "\n    " ++ p.render)
    (Keyword.text block.verb)

/- Several blocks as source, an empty line between them. -/
def renderAll (blocks : List Instruction) : String :=
  "\n\n".intercalate (blocks.map render)

/- Whether two blocks say the same, wherever they stand. -/
def SameContent (a b : Instruction) : Prop :=
  a.verb = b.verb ∧ a.properties = b.properties

instance (a b : Instruction) : Decidable (SameContent a b) := by
  unfold SameContent
  infer_instance

end Instruction

end LootFilter
