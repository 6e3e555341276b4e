import LootFilter.Argument
import LootFilter.Catalog.Basic
import LootFilter.Instruction
import LootFilter.Rule
import LootFilter.Text.Find

/-
  This file resolves blocks against a catalog.  The
  properties of a block are read in order, each one adding
  to what is selected so far, and the first failure wins.

  Key definitions include:
    * `FormatErrorKind`
    * `FormatError`
    * `Catalog.matching`
    * `Selection`
    * `Selection.apply`
    * `Selection.toRule`
    * `Instruction.evaluate`
-/

namespace LootFilter

------------------------------------------------------------
-- Errors
------------------------------------------------------------

/- Why a property cannot be resolved. -/
inductive FormatErrorKind where
| noBaseTypeMatch (fragment : String)
| invalidClass (name : String)
| invalidVfx (name : String)
| toOutsideRename
| trailingData (property : PropertyKind) (rest : String)
| unterminatedQuote
| missingSpaceAfterQuote
| emptyArgument
| missingArgument (property : PropertyKind)
| unsupported (property : PropertyKind)
deriving DecidableEq, Repr

namespace FormatErrorKind

/- An argument that cannot be read, as a property's failure. -/
def ofLexError : LexError → FormatErrorKind
| .unterminatedQuote => .unterminatedQuote
| .missingSpaceAfterQuote => .missingSpaceAfterQuote
| .emptyArgument => .emptyArgument

/- The wording of the reason. -/
def message : FormatErrorKind → String
| .noBaseTypeMatch fragment =>
    "no basetype matching '" ++ fragment ++ "'"
| .invalidClass name => "invalid class '" ++ name ++ "'"
| .invalidVfx name => "invalid vfx '" ++ name ++ "'"
| .toOutsideRename => "To can only appear in verb Rename"
| .trailingData property rest =>
    "trailing data after '" ++ Keyword.text property ++
      "': '" ++ rest ++ "'"
| .unterminatedQuote => "missing quote to close string"
| .missingSpaceAfterQuote => "expected space after quote"
| .emptyArgument => "empty argument"
| .missingArgument property =>
    "missing argument for '" ++ Keyword.text property ++ "'"
| .unsupported property =>
    "property '" ++ Keyword.text property ++
      "' is not supported yet"

end FormatErrorKind

/- A failed block, by the line of its verb, and the reason. -/
structure FormatError where
  line : Nat
  kind : FormatErrorKind
deriving DecidableEq, Repr

/- The wording of a failure. -/
def FormatError.message (e : FormatError) : String :=
  "format error @ rule starting on line " ++
    toString e.line ++ ": " ++ e.kind.message

------------------------------------------------------------
-- Matching names
------------------------------------------------------------

/-
  Whether a name matches a fragment: being equal to it under
  the operator, containing it without.
-/
def Entry.Matches
    (row : Entry)
    (op : Option RelationalOp)
    (fragment : List Char) : Bool :=
  match op with
  | some .equal => row.name.toList == fragment
  | none => Text.occursIn fragment row.name.toList

/- The base types whose names match a fragment, by row. -/
def Catalog.matching
    (c : Catalog)
    (op : Option RelationalOp)
    (fragment : List Char) : List String :=
  (c.nameRows.filter (·.Matches op fragment)).map (·.key)

------------------------------------------------------------
-- Selections
------------------------------------------------------------

/- What the properties read so far say. -/
structure Selection where
  named : Option BaseSet
  classed : Option BaseSet
  rename : Option String
  vfx : List VisualEffect
deriving DecidableEq, Repr

namespace Selection

/- What no property says. -/
def empty : Selection :=
  ⟨none, none, none, []⟩

/- Add base types that were selected by name. -/
def addNamed
    (s : Selection)
    (bases : List String) : Selection :=
  let before := s.named.getD BaseSet.empty
  { s with named := some (before.extend bases) }

/- Add the members of a class. -/
def addClassed
    (s : Selection)
    (bases : List String) : Selection :=
  let before := s.classed.getD BaseSet.empty
  { s with classed := some (before.extend bases) }

------------------------------------------------------------
-- Reading arguments
------------------------------------------------------------

/- The argument that a property cannot do without. -/
def required
    (kind : PropertyKind)
    (cs : List Char) :
    Except FormatErrorKind (List Char × List Char) :=
  match Argument.next false cs with
  | .error e => .error (.ofLexError e)
  | .ok (none, _) => .error (.missingArgument kind)
  | .ok (some arg, rest) => .ok (arg, rest)

/- Nothing but blanks may be left. -/
def finished
    (kind : PropertyKind)
    (cs : List Char) : Except FormatErrorKind Unit :=
  match Argument.remainder cs with
  | none => .ok ()
  | some rest =>
      .error (.trailingData kind (String.ofList rest))

/-
  Feed the optional arguments of a list to a step, one after
  the other.  The list ends where no argument is left or
  where an argument is empty.
-/
def feedRest
    (kind : PropertyKind)
    (step :
      Selection →
        List Char → Except FormatErrorKind Selection)
    (s : Selection)
    (cs : List Char) :
    Except FormatErrorKind Selection :=
  match _hNext : Argument.next true cs with
  | .error e => .error (.ofLexError e)
  | .ok (none, rest) => do
      finished kind rest
      return s
  | .ok (some arg, rest) => do
      let next ← step s arg
      feedRest kind step next rest
termination_by cs.length
decreasing_by exact Argument.next_length_lt _hNext

/-
  Feed a list of arguments to a step.  The list has at least
  one argument, and nothing may follow it.
-/
def feed
    (kind : PropertyKind)
    (step :
      Selection →
        List Char → Except FormatErrorKind Selection)
    (s : Selection)
    (cs : List Char) :
    Except FormatErrorKind Selection := do
  let (arg, rest) ← required kind cs
  let next ← step s arg
  feedRest kind step next rest

------------------------------------------------------------
-- Reading properties
------------------------------------------------------------

/- Select the base types whose names match a fragment. -/
def addFragment
    (c : Catalog)
    (op : Option RelationalOp)
    (s : Selection)
    (fragment : List Char) :
    Except FormatErrorKind Selection :=
  match c.matching op fragment with
  | [] =>
      .error (.noBaseTypeMatch (String.ofList fragment))
  | key :: keys => .ok (s.addNamed (key :: keys))

/- Select the members of a class. -/
def addClassName
    (c : Catalog)
    (s : Selection)
    (name : List Char) :
    Except FormatErrorKind Selection :=
  match Keyword.find? ItemClass (String.ofList name) with
  | none => .error (.invalidClass (String.ofList name))
  | some k =>
      .ok (s.addClassed
        ((c.classBases k).getD BaseSet.empty).toList)

/- Set the template for new names. -/
def setName
    (verb : Verb)
    (s : Selection)
    (cs : List Char) :
    Except FormatErrorKind Selection :=
  if verb = .renameItem then do
    let (template, rest) ← required .newName cs
    finished .newName rest
    return { s with rename := some (String.ofList template) }
  else
    .error .toOutsideRename

/- Add a visual effect. -/
def addEffect
    (s : Selection)
    (cs : List Char) :
    Except FormatErrorKind Selection :=
  match Argument.bare cs with
  | .error e => .error (.ofLexError e)
  | .ok (none, _) => .error (.missingArgument .addVfx)
  | .ok (some name, rest) =>
      match
        Keyword.find? VisualEffect (String.ofList name) with
      | none => .error (.invalidVfx (String.ofList name))
      | some effect => do
          finished .addVfx rest
          return { s with vfx := s.vfx ++ [effect] }

/- Read one property on top of those before it. -/
def apply
    (c : Catalog)
    (verb : Verb)
    (s : Selection)
    (p : Property) : Except FormatErrorKind Selection :=
  match p.kind with
  | .baseType =>
      let (op, rest) := Argument.operator p.raw.toList
      feed .baseType (addFragment c op) s rest
  | .itemClass =>
      feed .itemClass (addClassName c) s p.raw.toList
  | .newName => setName verb s p.raw.toList
  | .addVfx => addEffect s p.raw.toList
  | .playSound => .error (.unsupported .playSound)

/-
  The base types selected in the end: those selected by name
  as far as they belong to the classes, where both were
  given.
-/
def bases (s : Selection) : Option BaseSet :=
  match s.named, s.classed with
  | some named, some classed => some (named.restrict classed)
  | none, some classed => some classed
  | named, none => named

/- The rule that a block with this selection stands for. -/
def toRule
    (s : Selection)
    (block : Instruction) : Rule :=
  ⟨block.sourceLine, block.verb, s.bases, s.rename, s.vfx⟩

end Selection

------------------------------------------------------------
-- Evaluation
------------------------------------------------------------

namespace Instruction

/- Read the properties of a block. -/
def select
    (c : Catalog)
    (block : Instruction) :
    Except FormatErrorKind Selection :=
  block.properties.foldlM (Selection.apply c block.verb)
    Selection.empty

/- The rule that a block stands for. -/
def evaluate
    (c : Catalog)
    (block : Instruction) : Except FormatError Rule :=
  match block.select c with
  | .error kind => .error ⟨block.sourceLine, kind⟩
  | .ok s => .ok (s.toRule block)

/- A block is resolved if its properties are read. -/
theorem evaluate_eq_ok_iff
    {c : Catalog}
    {block : Instruction}
    {rule : Rule} :
    block.evaluate c = .ok rule ↔
      ∃ s, block.select c = .ok s ∧ s.toRule block = rule := by
  unfold evaluate
  cases block.select c <;> simp

/- And it fails on the line of its verb if they are not. -/
theorem evaluate_eq_error_iff
    {c : Catalog}
    {block : Instruction}
    {e : FormatError} :
    block.evaluate c = .error e ↔
      ∃ kind,
        block.select c = .error kind ∧
          e = ⟨block.sourceLine, kind⟩ := by
  unfold evaluate
  cases block.select c <;> simp [eq_comm]

end Instruction

end LootFilter
