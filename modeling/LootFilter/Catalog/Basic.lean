import LootFilter.Assoc
import LootFilter.BaseSet
import LootFilter.Keyword

/-
  This file defines the reference data that filters are
  resolved against: the two tables of item names, the item
  classes and the visual assets.

  Key definitions include:
    * `isRuneKey`
    * `runeCodes`
    * `Entry`
    * `Catalog`
    * `Catalog.addClass`
    * `Catalog.setAsset`
    * `Catalog.nameRows`
-/

namespace LootFilter

------------------------------------------------------------
-- Rune codes
------------------------------------------------------------

/- Whether a key is a rune code: `r` and two digits. -/
def isRuneKey (key : String) : Bool :=
  match key.toList with
  | ['r', a, b] => a.isDigit && b.isDigit
  | _ => false

/- The codes of all runes, `r01` to `r33`. -/
def runeCodes : List String :=
  (List.range 33).map fun i =>
    let n := i + 1
    "r" ++ (if n < 10 then "0" else "") ++ toString n

------------------------------------------------------------
-- Catalogs
------------------------------------------------------------

/- A row of a name table: a base type and its English name. -/
structure Entry where
  key : String
  name : String
deriving DecidableEq, Repr

/-
  The reference data.  A class without a set has no members
  at all; a base type without an asset cannot carry effects.
-/
structure Catalog where
  names : List Entry
  runes : List Entry
  classes : Assoc ItemClass BaseSet
  assets : Assoc String String
deriving DecidableEq, Repr

namespace Catalog

/- The catalog without any data. -/
def empty : Catalog :=
  ⟨[], [], [], []⟩

instance : Inhabited Catalog := ⟨empty⟩

/- Append a row to the table of item names. -/
def addName (c : Catalog) (row : Entry) : Catalog :=
  { c with names := c.names ++ [row] }

/- Append a row to the table of rune names. -/
def addRune (c : Catalog) (row : Entry) : Catalog :=
  { c with runes := c.runes ++ [row] }

/- The members of a class, if it has a set of members. -/
def classBases
    (c : Catalog)
    (k : ItemClass) : Option BaseSet :=
  Assoc.find? k c.classes

/- Add members to a class, giving it a set if it has none. -/
def addClass
    (c : Catalog)
    (k : ItemClass)
    (bases : List String) : Catalog :=
  let members := (c.classBases k).getD BaseSet.empty
  let classes :=
    Assoc.set k (members.extend bases) c.classes
  { c with classes := classes }

/- Add all rune codes to the class of runes. -/
def addRuneClass (c : Catalog) : Catalog :=
  c.addClass .rune runeCodes

/- The visual asset of a base type. -/
def asset?
    (c : Catalog)
    (base : String) : Option String :=
  Assoc.find? base c.assets

/- Give a base type a visual asset, in place of any other. -/
def setAsset
    (c : Catalog)
    (base asset : String) : Catalog :=
  { c with assets := Assoc.set base asset c.assets }

/- The same catalog without visual assets. -/
def withoutAssets (c : Catalog) : Catalog :=
  { c with assets := [] }

/-
  The rows that name base types: all item names, and the
  rows of the rune table that are keyed by a rune code.
-/
def nameRows (c : Catalog) : List Entry :=
  c.names ++ c.runes.filter (isRuneKey ·.key)

end Catalog

end LootFilter
