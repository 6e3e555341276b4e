import LootFilter.Catalog.Basic
import LootFilter.DataFile
import LootFilter.ItemTable
import LootFilter.Text.Find

/-
  This file loads a catalog from a data directory: the two
  string tables, the item tables and the index of assets.

  Key definitions include:
    * `CatalogError`
    * `ItemClass.ofArmorName`
    * `Catalog.addItem`
    * `Catalog.load`
    * `Catalog.codelessRows`
-/

namespace LootFilter

------------------------------------------------------------
-- Errors
------------------------------------------------------------

/- Why a data directory gives no catalog, and which file. -/
inductive CatalogError where
| unreadable (path : Path) (e : IoError)
| invalidJson (path : Path) (e : Json.Fault)
| missingColumn (path : Path) (column : String)
| unreadableTable (path : Path) (e : IoError)
| undecodableTable (path : Path)
deriving DecidableEq, Repr

namespace CatalogError

/- The wording of the reason. -/
def message : CatalogError → String
| .unreadable path e =>
    "failed to read " ++ path.text ++ ": " ++ e.message
| .invalidJson path _ => "invalid JSON in " ++ path.text
| .missingColumn path column =>
    "table " ++ path.text ++ " has no '" ++ column ++
      "' column"
| .unreadableTable path _ => "invalid table " ++ path.text
| .undecodableTable path => "invalid table " ++ path.text

/- What lies behind the reason, for a line of the log. -/
def causes : CatalogError → List String
| .unreadable _ e => [e.message]
| .unreadableTable _ e => [e.message, e.message]
| _ => []

end CatalogError

------------------------------------------------------------
-- Item classes
------------------------------------------------------------

/-
  The words by which an armor's class is told from its name,
  in the order in which they are tried.
-/
def armorWords : List (List String × ItemClass) :=
  [ (["Cap", "Helm"], .helmet),
    (["Armor", "Mail", "Plate"], .chest),
    (["Shield", "Buckler"], .shield),
    (["Gloves"], .gloves),
    (["Boots"], .boots),
    (["Belt"], .belt) ]

/- The class of an armor with a given name. -/
def ItemClass.ofArmorName (name : String) : ItemClass :=
  let hit :=
    armorWords.find? fun (words, _) =>
      words.any fun word =>
        Text.occursIn word.toList name.toList
  match hit with
  | some (_, k) => k
  | none => .unknown

/- The class of another item with a given code. -/
def ItemClass.ofMiscCode (code : String) : Option ItemClass :=
  if code = "rin" then some .ring
  else if code = "amu" then some .amulet
  else none

namespace Catalog

/- Add an item to a class, unless it has no code. -/
def addItem
    (c : Catalog)
    (k : ItemClass)
    (code : String) : Catalog :=
  if code = "" then c else c.addClass k [code]

/- Add the rows of the table of armor to their classes. -/
def addArmor
    (c : Catalog)
    (rows : List ItemTable.ItemRow) : Catalog :=
  rows.foldl
    (fun c row =>
      c.addItem (ItemClass.ofArmorName row.name) row.code)
    c

/- Add the rows of the table of other items. -/
def addMisc
    (c : Catalog)
    (rows : List ItemTable.ItemRow) : Catalog :=
  rows.foldl
    (fun c row =>
      match ItemClass.ofMiscCode row.code with
      | none => c
      | some k => c.addItem k row.code)
    c

/- Add the entries of an index of assets. -/
def addAssets
    (c : Catalog)
    (entries : List (String × String)) : Catalog :=
  entries.foldl (fun c entry => c.setAsset entry.1 entry.2) c

end Catalog

------------------------------------------------------------
-- Decoding
------------------------------------------------------------

/-
  A row of a string table: a key, and an English name that is
  empty when it is not given.
-/
def Entry.ofDocument
    (d : Json.Document) : Except Json.Fault Entry := do
  let fields ← d.record ["Key", "enUS"]
  match fields.lookup "Key" with
  | none => .error .mismatched
  | some key => .ok ⟨key, (fields.lookup "enUS").getD ""⟩

/- A reference to an asset. -/
def assetOfDocument
    (d : Json.Document) : Except Json.Fault String := do
  let fields ← d.record ["asset"]
  match fields.lookup "asset" with
  | none => .error .mismatched
  | some asset => .ok asset

/- An index of assets: groups of codes with their assets. -/
def assetIndexOfDocument
    (d : Json.Document) :
    Except Json.Fault (List (String × String)) := do
  let groups ← d.each (Json.Document.entries assetOfDocument)
  return groups.flatten

------------------------------------------------------------
-- Loading
------------------------------------------------------------

namespace Catalog

/- The document of a file of the data directory. -/
def loadJson
    {α : Type}
    (read : Json.Document → Except Json.Fault α)
    (disk : Disk)
    (path : Path) : Except CatalogError α :=
  match DataFile.readJson read disk path with
  | .error (.io e) => .error (.unreadable path e)
  | .error (.json e) => .error (.invalidJson path e)
  | .ok a => .ok a

/- The rows of a string table. -/
def loadEntries
    (disk : Disk)
    (path : Path) : Except CatalogError (List Entry) :=
  loadJson (Json.Document.each Entry.ofDocument) disk path

/- The rows of an item table. -/
def loadItems
    (disk : Disk)
    (path : Path) :
    Except CatalogError (List ItemTable.ItemRow) :=
  match disk.read path with
  | .error e => .error (.unreadableTable path e)
  | .ok bytes =>
      match ItemTable.read bytes.data.toList with
      | .error .notUtf8 => .error (.undecodableTable path)
      | .error (.missingColumn name) =>
          .error (.missingColumn path name)
      | .ok rows => .ok rows

/- Load something from a file, if the file is there. -/
def loadIfFile
    {α : Type}
    (load :
      Disk → Path → Except CatalogError (List α))
    (disk : Disk)
    (path : Path) : Except CatalogError (List α) :=
  if disk.hasFile path then load disk path else .ok []

/-
  The catalog of a data directory.  The table of other items
  and the index of assets may be missing.
-/
def load
    (disk : Disk)
    (dir : Path) : Except CatalogError Catalog := do
  let names ← loadEntries disk (DataFile.itemNames dir)
  let runes ← loadEntries disk (DataFile.itemRunes dir)
  let armor ← loadItems disk (DataFile.armorTable dir)
  let misc ←
    loadIfFile loadItems disk (DataFile.miscTable dir)
  let assets ←
    loadIfFile (loadJson assetIndexOfDocument) disk
      (DataFile.assetIndex dir)
  let base : Catalog := ⟨names, runes, [], []⟩
  let classified :=
    ((base.addArmor armor).addMisc misc).addRuneClass
  return classified.addAssets assets

/-
  The classes of the rows that loading leaves out because they
  have no code.  They are known once the table of armor is
  read, whatever becomes of the files after it.
-/
def codelessRows
    (disk : Disk)
    (dir : Path) : List ItemClass :=
  let rows : Except CatalogError (List ItemTable.ItemRow) := do
    let _ ← loadEntries disk (DataFile.itemNames dir)
    let _ ← loadEntries disk (DataFile.itemRunes dir)
    loadItems disk (DataFile.armorTable dir)
  match rows with
  | .error _ => []
  | .ok rows =>
      (rows.filter (·.code = "")).map fun row =>
        ItemClass.ofArmorName row.name

end Catalog

end LootFilter
