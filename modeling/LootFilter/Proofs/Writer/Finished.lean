import LootFilter.Proofs.Backup.Written
import LootFilter.Proofs.Entries
import LootFilter.Proofs.Writer.Descriptors

/-
  What finishing leaves of the string tables.

  The two tables have different names, a copy has the name of
  neither, and a table holds an array, which no descriptor
  does.  So whatever else is staged is written elsewhere: the
  file of a table holds its staged rows, or what it held.

  Main declarations:
    * `DataFile.tableName`
    * `Writer.apartFrom_of_mem_files`
    * `Writer.node?_finish`
-/

namespace LootFilter

open Backup (ApartFrom Spares copyPlace)
open Json (Document Value)

------------------------------------------------------------
-- Places of the Tables
------------------------------------------------------------

namespace DataFile

variable {d : Disk} {dir : Path} {l : Location} {rune : Bool}

/- The name of the file of a table. -/
def tableName (rune : Bool) : String :=
  if rune then "item-runes.json" else "item-names.json"

/- The tables have different names. -/
theorem tableName_injective :
    Function.Injective tableName := by
  intro a b hName
  cases a <;> cases b <;>
    first | rfl | exact absurd hName (by decide)

/- The path of a table ends with that name. -/
theorem segments_stringTable (dir : Path) (rune : Bool) :
    (stringTable dir rune).segments =
      (dir.stem ++ ["local", "lng", "strings"]) ++
        [tableName rune] := by
  cases rune <;>
    simp [stringTable, itemNames, itemRunes, tableName,
      Path.below, Path.join, Path.IsAbsolute]

/- So a table stands at a place with that name. -/
theorem exists_parent_of_stringTable
    (hLocate : d.locate (stringTable dir rune) = .ok l) :
    ∃ parent, l = parent ++ [tableName rune] := by
  have hName : Disk.NamesEntry (tableName rune) := by
    cases rune <;> decide
  rcases Disk.exists_parent_of_locate
      (segments_stringTable dir rune) hName hLocate with
    ⟨parent, _, _, hPlace⟩
  exact ⟨parent, hPlace⟩

/- The tables stand at different places. -/
theorem ne_of_locate_stringTable
    {m : Location}
    {other : Bool}
    (hLocate : d.locate (stringTable dir rune) = .ok l)
    (hPlace : d.locate (stringTable dir other) = .ok m)
    (hOther : other ≠ rune) :
    l ≠ m := by
  rcases exists_parent_of_stringTable hLocate with
    ⟨parent, rfl⟩
  rcases exists_parent_of_stringTable hPlace with
    ⟨above, rfl⟩
  intro hEq
  have hLast := (List.append_inj' hEq rfl).2
  rw [List.singleton_inj] at hLast
  exact hOther (tableName_injective hLast).symm

/- No copy stands where a table does. -/
theorem ne_copyPlace_of_locate_stringTable
    (hLocate : d.locate (stringTable dir rune) = .ok l)
    (m : Location) :
    l ≠ copyPlace m := by
  have hDocument : (stringTable dir rune).IsDocument := by
    cases rune with
    | false => exact itemNames_isDocument dir
    | true => exact itemRunes_isDocument dir
  exact Backup.ne_copyPlace_of_locate hDocument hLocate m

end DataFile

/- A loaded catalog has the rows of the tables. -/
theorem Catalog.loadEntries_stringTable
    {disk : Disk}
    {dir : Path}
    {c : Catalog}
    (hLoad : load disk dir = .ok c)
    (rune : Bool) :
    loadEntries disk (DataFile.stringTable dir rune) =
      .ok (c.table rune) := by
  rcases load_eq_ok hLoad with ⟨hNames, hRunes, _⟩
  cases rune with
  | false => exact hNames
  | true => exact hRunes

------------------------------------------------------------
-- Files of a Writer
------------------------------------------------------------

namespace Writer

variable {disk : Disk} {dir : Path} {catalog : Catalog}
variable {rules : List Rule} {w : Writer} {rune : Bool}
variable {l : Location} {device : Device}

/-
  A staged file is that of a table, or is written apart from
  where the table stands.
-/
theorem apartFrom_of_mem_files
    (hLoad : Catalog.load disk dir = .ok catalog)
    (hWrite :
      (new dir catalog).writeAll disk rules = (w, none))
    {entry : Path × Value}
    (hMem : entry ∈ w.files)
    (hLocate :
      disk.locate (DataFile.stringTable dir rune) = .ok l) :
    (∃ rows,
        w.staging.table rune = some rows ∧
          entry =
            (DataFile.stringTable dir rune, .array rows)) ∨
      ApartFrom disk entry.1 l := by
  rcases (describes_new disk dir catalog).performAll
      hWrite with
    ⟨hDescribes, hTarget⟩
  have hDir : w.dir = dir := hTarget.dir
  have hCopy :=
    DataFile.ne_copyPlace_of_locate_stringTable hLocate
  rcases mem_files_iff.mp hMem with
    ⟨other, rows, hRows, rfl⟩ | ⟨staged, hAsset, rfl⟩
  · rw [hDir]
    by_cases hOther : other = rune
    · subst hOther
      exact Or.inl ⟨rows, hRows, rfl⟩
    · right
      intro m hPlace
      exact
        ⟨DataFile.ne_of_locate_stringTable hLocate hPlace
          hOther, hCopy m⟩
  · right
    intro m hPlace
    refine ⟨?_, hCopy m⟩
    rintro rfl
    -- An asset's name may lead to a table, which has no entities.
    rcases hDescribes staged hAsset with
      ⟨_, _, doc, _, _, hRead, hEntities⟩
    have hTable :=
      Catalog.loadJson_eq_ok_iff.mp
        (Catalog.loadEntries_stringTable hLoad rune)
    exact
      DataFile.locate_ne_of_readsArrays
        (Json.readsArrays_each _) hTable hRead hEntities
        (hLocate.trans hPlace.symm)

/-
  Once a writer is finished, the file of a table holds the
  staged rows, or what it held if none are staged.
-/
theorem node?_finish
    (hLoad : Catalog.load disk dir = .ok catalog)
    (hWrite :
      (new dir catalog).writeAll disk rules = (w, none))
    (hDone : (w.finish device disk).failure = none)
    (hLocate :
      disk.locate (DataFile.stringTable dir rune) = .ok l) :
    (w.finish device disk).disk.locate
          (DataFile.stringTable dir rune) = .ok l ∧
      (w.finish device disk).disk.node? l =
        match w.staging.table rune with
        | none => disk.node? l
        | some rows =>
            some (.file (DataFile.encodeJson (.array rows))) := by
  have hWriter := namesDocuments_of_writeAll hWrite
  have hDocuments :
      ∀ entry ∈ w.files, entry.1.IsDocument :=
    fun entry hMem => isDocument_of_mem_files hWriter hMem
  have hApart :
      ∀ entry ∈ w.files,
        (∃ rows,
            w.staging.table rune = some rows ∧
              entry =
                (DataFile.stringTable dir rune,
                  .array rows)) ∨
          ApartFrom disk entry.1 l :=
    fun entry hMem =>
      apartFrom_of_mem_files hLoad hWrite hMem hLocate
  have hSpares :=
    Backup.spares_writeFiles device disk hDocuments
  refine ⟨hSpares.folders.locate_eq_ok hLocate, ?_⟩
  cases hTable : w.staging.table rune with
  | none =>
      apply hSpares.node
      intro entry hMem
      rcases hApart entry hMem with ⟨rows, hRows, _⟩ | hThere
      · rw [hTable] at hRows
        cases hRows
      · exact hThere
  | some rows =>
      have hStaged :
          (DataFile.stringTable dir rune, Value.array rows) ∈
            w.files := by
        have hDir : w.dir = dir :=
          ((describes_new disk dir catalog).performAll
            hWrite).2.dir
        exact
          mem_files_iff.mpr
            (Or.inl ⟨rune, rows, hTable, by rw [hDir]⟩)
      apply
        Backup.node?_writeFiles_of_mem hDocuments hStaged
          hLocate _ hDone
      intro entry hMem
      apply (hApart entry hMem).imp_left
      rintro ⟨other, hOther, rfl⟩
      rw [hTable] at hOther
      cases hOther
      rfl

end Writer

end LootFilter
