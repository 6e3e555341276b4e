import LootFilter.Disk.Basic
import LootFilter.Json.Document
import LootFilter.Json.Printer

/-
  This file says where the data files are and how their
  contents are encoded: UTF-8 with an optional byte order
  mark when read, always with one when written.

  Key definitions include:
    * `DataFile.itemNames`
    * `DataFile.asset`
    * `DataFile.backup`
    * `DataFile.readText`
    * `DataFile.readJson`
    * `DataFile.writeJson`
-/

namespace LootFilter.DataFile

------------------------------------------------------------
-- Locations
------------------------------------------------------------

/- The table of item names, from the data directory. -/
def itemNames (dir : Path) : Path :=
  dir.below ["local", "lng", "strings", "item-names.json"]

/- The table of rune names. -/
def itemRunes (dir : Path) : Path :=
  dir.below ["local", "lng", "strings", "item-runes.json"]

/- The table of armor. -/
def armorTable (dir : Path) : Path :=
  dir.below ["global", "excel", "armor.txt"]

/- The table of all other items. -/
def miscTable (dir : Path) : Path :=
  dir.below ["global", "excel", "misc.txt"]

/- The index of visual assets. -/
def assetIndex (dir : Path) : Path :=
  dir.below ["hd", "items", "items.json"]

/- The descriptor of a visual asset. -/
def asset (dir : Path) (name : String) : Path :=
  (dir.below ["hd", "items"]).join
    (Path.ofText (name ++ ".json"))

/- What marks the copy of a file as it was at first. -/
def backupSuffix : String :=
  ".d2lootfilter"

/- The copy that is kept next to a file. -/
def backup (p : Path) : Path :=
  p.withName (p.segments.getLast?.getD "" ++ backupSuffix)

------------------------------------------------------------
-- Text
------------------------------------------------------------

/- The byte order mark. -/
def byteOrderMark : Char :=
  '\uFEFF'

/- A text without a byte order mark at its front. -/
def dropMark (s : String) : String :=
  match s.toList with
  | [] => s
  | c :: cs =>
      if c = byteOrderMark then String.ofList cs else s

/- The text that a file holds. -/
def readText
    (d : Disk)
    (p : Path) : Except IoError String := do
  match String.fromUTF8? (← d.read p) with
  | none => .error .notUtf8
  | some s => .ok (dropMark s)

------------------------------------------------------------
-- Documents
------------------------------------------------------------

/- Why a file holds no document of the shape asked for. -/
inductive ReadError where
| io (e : IoError)
| json (e : Json.Fault)
deriving DecidableEq, Repr

/- The document that a file holds. -/
def readJson
    {α : Type}
    (read : Json.Document → Except Json.Fault α)
    (d : Disk)
    (p : Path) : Except ReadError α :=
  match readText d p with
  | .error e => .error (.io e)
  | .ok s =>
      match Json.decode read s with
      | .error e => .error (.json e)
      | .ok a => .ok a

/- The bytes of a written document. -/
def encodeJson (v : Json.Value) : ByteArray :=
  (String.ofList [byteOrderMark] ++ v.print).toUTF8

/- Write a document to a file. -/
def writeJson
    (t : Transfer)
    (d : Disk)
    (p : Path)
    (v : Json.Value) : Disk × Option IoError :=
  d.write t p (encodeJson v)

end LootFilter.DataFile
