import LootFilter.Block
import LootFilter.Conflict
import LootFilter.DataFile
import LootFilter.Evaluation

/-
  This file turns the source of a filter into its rules: the
  text is grouped into blocks, each block is resolved, and
  the rules are checked against each other.

  Key definitions include:
    * `Filter`
    * `FilterError`
    * `Catalog.evaluateEach`
    * `Filter.ofSource`
    * `Filter.ofFile`
-/

namespace LootFilter

/- The rules of a filter, one for each block of its source. -/
structure Filter where
  rules : List Rule
deriving DecidableEq, Repr

/- The filter in a few words. -/
def Filter.summary (f : Filter) : String :=
  "Filter(" ++ toString f.rules.length ++ " rules, " ++
    toString (f.rules.flatMap Rule.targets).length ++
    " base types)"

/- Why a source is no filter. -/
inductive FilterError where
| parse (e : ParseError)
| format (e : FormatError)
| conflict (e : ConflictError)
deriving DecidableEq, Repr

/- The wording of the reason. -/
def FilterError.message : FilterError → String
| .parse e => e.message
| .format e => e.message
| .conflict e => e.message

/-
  Resolve blocks one after the other: the rules of the blocks
  before the first failure, and that failure.
-/
def Catalog.evaluateEach
    (c : Catalog) :
    List Instruction → List Rule × Option FormatError
| [] => ([], none)
| block :: blocks =>
    match block.evaluate c with
    | .error e => ([], some e)
    | .ok rule =>
        let (rules, failure) := evaluateEach c blocks
        (rule :: rules, failure)

/- The rules that a source resolves before its first fault. -/
def Catalog.resolvedRules
    (c : Catalog)
    (source : String) : List Rule :=
  match Instruction.ofSource source with
  | .error _ => []
  | .ok blocks => (c.evaluateEach blocks).1

/- The filter that a source stands for. -/
def Filter.ofSource
    (c : Catalog)
    (source : String) : Except FilterError Filter :=
  match Instruction.ofSource source with
  | .error e => .error (.parse e)
  | .ok blocks =>
      match c.evaluateEach blocks with
      | (_, some e) => .error (.format e)
      | (rules, none) =>
          match validate rules with
          | .error e => .error (.conflict e)
          | .ok () => .ok ⟨rules⟩

/- Why a file holds no filter. -/
inductive FilterFileError where
| io (e : IoError)
| source (e : FilterError)
deriving DecidableEq, Repr

/- The wording of the reason. -/
def FilterFileError.message : FilterFileError → String
| .io e => e.message
| .source e => e.message

/-
  The filter that a file holds: its text without a byte order
  mark at the front is the source.
-/
def Filter.ofFile
    (c : Catalog)
    (d : Disk)
    (p : Path) : Except FilterFileError Filter :=
  match DataFile.readText d p with
  | .error e => .error (.io e)
  | .ok source =>
      match ofSource c source with
      | .error e => .error (.source e)
      | .ok filter => .ok filter

end LootFilter
