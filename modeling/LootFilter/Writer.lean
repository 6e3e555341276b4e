import LootFilter.Backup
import LootFilter.Catalog.Basic
import LootFilter.Effect
import LootFilter.Rule

/-
  This file applies rules to the data files.  The changes are
  staged first: a file is read when it is first needed and
  changed in memory.  Finishing writes what was staged.

  Key definitions include:
    * `Staging`
    * `Edit`
    * `Rule.edits`
    * `Writer`
    * `Writer.perform`
    * `Writer.write`
    * `Writer.writeAll`
    * `Writer.finish`
-/

namespace LootFilter

open Json (Value)

------------------------------------------------------------
-- Staged files
------------------------------------------------------------

/- A staged asset descriptor and the path that names it. -/
structure StagedAsset where
  path : Path
  doc : Value

/-
  What is staged so far.  Asset descriptors are told apart by
  the components of their paths, in the order of their first
  use.  `unmatched` lists the base types for which no row was
  found to rename.
-/
structure Staging where
  names : Option (List Value)
  runes : Option (List Value)
  assets : Assoc (List String) StagedAsset
  unmatched : List String

/- Nothing is staged. -/
def Staging.empty : Staging :=
  ⟨none, none, [], []⟩

instance : Inhabited Staging := ⟨Staging.empty⟩

------------------------------------------------------------
-- Edits
------------------------------------------------------------

/- A change to one file on behalf of one base type. -/
inductive Edit where
| rename (base : String) (rule : Rule)
| addEffect (base : String) (effect : VisualEffect)
deriving DecidableEq, Repr

/-
  The edits that a rule stands for: for each target its new
  name, if the rule changes names, and then its effects.
-/
def Rule.edits (rule : Rule) : List Edit :=
  rule.targets.flatMap fun base =>
    (if rule.changesNames then [.rename base rule] else []) ++
      rule.vfx.map (.addEffect base)

/- A row of a string table with the name that a rule gives. -/
def Rule.renameRow (rule : Rule) (row : Value) : Value :=
  let current := (row.memberText? "enUS").getD ""
  match rule.displayName current with
  | none => row
  | some name => row.setMember "enUS" (.text name)

/-
  A string table with the first row of a base type renamed, or
  `none` if the table has no such row.
-/
def Rule.renameIn
    (rule : Rule)
    (base : String) : List Value → Option (List Value)
| [] => none
| row :: rows =>
    if row.memberText? "Key" = some base then
      some (rule.renameRow row :: rows)
    else
      (rule.renameIn base rows).map (row :: ·)

------------------------------------------------------------
-- Writers
------------------------------------------------------------

/- A data directory with the changes staged for it. -/
structure Writer where
  dir : Path
  catalog : Catalog
  staging : Staging

namespace Writer

/- A writer with nothing staged. -/
def new (dir : Path) (catalog : Catalog) : Writer :=
  ⟨dir, catalog, Staging.empty⟩

/- A document, or the failure to read it. -/
def readJson
    {α : Type}
    (read : Json.Document → Except Json.Fault α)
    (disk : Disk)
    (path : Path) : Except WriteError α :=
  match DataFile.readJson read disk path with
  | .error (.io e) => .error (.io path e)
  | .error (.json e) => .error (.invalidJson path e)
  | .ok a => .ok a

/- The staged rows of a table, read from its file at first. -/
def loadTable
    (disk : Disk)
    (path : Path)
    (staged : Option (List Value)) :
    Except WriteError (List Value) :=
  match staged with
  | some rows => .ok rows
  | none => readJson Json.Document.values disk path

/- Whether a base type is renamed in the table of runes. -/
def inRuneTable (base : String) : Bool :=
  isRuneKey base

/- The rows after a rename, and whether one was found. -/
def renamedRows
    (rule : Rule)
    (base : String)
    (rows : List Value) : List Value × List String :=
  match rule.renameIn base rows with
  | some renamed => (renamed, [])
  | none => (rows, [base])

/- Stage the new name of a base type. -/
def performRename
    (disk : Disk)
    (w : Writer)
    (base : String)
    (rule : Rule) : Writer × Option WriteError :=
  let s := w.staging
  if inRuneTable base then
    match loadTable disk (DataFile.itemRunes w.dir) s.runes with
    | .error e => (w, some e)
    | .ok rows =>
        let (renamed, missed) := renamedRows rule base rows
        let staged : Staging :=
          { s with
            runes := some renamed
            unmatched := s.unmatched ++ missed }
        ({ w with staging := staged }, none)
  else
    match loadTable disk (DataFile.itemNames w.dir) s.names with
    | .error e => (w, some e)
    | .ok rows =>
        let (renamed, missed) := renamedRows rule base rows
        let staged : Staging :=
          { s with
            names := some renamed
            unmatched := s.unmatched ++ missed }
        ({ w with staging := staged }, none)

/- The writer with an asset descriptor staged. -/
def stageAsset
    (w : Writer)
    (key : List String)
    (a : StagedAsset) : Writer :=
  let assets := Assoc.set key a w.staging.assets
  { w with staging := { w.staging with assets := assets } }

/-
  The staged descriptor at a path, read from its file at
  first.  The path that was used first stays its name.
-/
def loadAsset
    (disk : Disk)
    (w : Writer)
    (path : Path) : Except WriteError StagedAsset :=
  match Assoc.find? path.components w.staging.assets with
  | some a => .ok a
  | none => do
      let doc ← readJson Json.Document.value disk path
      return ⟨path, doc⟩

/-
  Stage an effect of a base type.  A descriptor that was read
  stays staged even if it cannot take the effect.
-/
def performEffect
    (disk : Disk)
    (w : Writer)
    (base : String)
    (effect : VisualEffect) : Writer × Option WriteError :=
  match w.catalog.asset? base with
  | none => (w, some (.noAsset base))
  | some name =>
      let path := DataFile.asset w.dir name
      match loadAsset disk w path with
      | .error e => (w, some e)
      | .ok a =>
          match effect.putOn.run a.doc with
          | .error fault doc =>
              (w.stageAsset path.components ⟨a.path, doc⟩,
                some (.malformedAsset path fault.message))
          | .ok _ doc =>
              (w.stageAsset path.components ⟨a.path, doc⟩, none)

/- Stage one edit. -/
def perform
    (disk : Disk)
    (w : Writer) : Edit → Writer × Option WriteError
| .rename base rule => performRename disk w base rule
| .addEffect base effect => performEffect disk w base effect

/- Stage edits in order, up to the first failure. -/
def performAll
    (disk : Disk)
    (w : Writer) :
    List Edit → Writer × Option WriteError
| [] => (w, none)
| edit :: edits =>
    match perform disk w edit with
    | (next, some e) => (next, some e)
    | (next, none) => performAll disk next edits

/- Stage a rule. -/
def write
    (disk : Disk)
    (w : Writer)
    (rule : Rule) : Writer × Option WriteError :=
  performAll disk w rule.edits

/- Stage rules in order, up to the first failure. -/
def writeAll
    (disk : Disk)
    (w : Writer)
    (rules : List Rule) : Writer × Option WriteError :=
  performAll disk w (rules.flatMap Rule.edits)

------------------------------------------------------------
-- Finishing
------------------------------------------------------------

/- A staged table as a file to write, if it is staged. -/
def tableFile
    (path : Path)
    (rows : Option (List Value)) : List (Path × Value) :=
  match rows with
  | none => []
  | some rows => [(path, .array rows)]

/-
  The staged files in the order of writing: the table of
  names, the table of runes, the asset descriptors.
-/
def files (w : Writer) : List (Path × Value) :=
  tableFile (DataFile.itemNames w.dir) w.staging.names ++
    tableFile (DataFile.itemRunes w.dir) w.staging.runes ++
    w.staging.assets.map fun (_, a) => (a.path, a.doc)

/- Write the staged files, up to the first failure. -/
def finish
    (device : Device)
    (disk : Disk)
    (w : Writer) : Progress :=
  Backup.writeFiles device disk w.files

end Writer

end LootFilter
