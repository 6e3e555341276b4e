import LootFilter.Catalog.Load
import LootFilter.Proofs.DataFile

/-
  What a loaded catalog has from which file.

  The rows of the two tables are those of their files, and an
  asset is one of the index.  The tables of items add classes
  only.

  Main declarations:
    * `Catalog.exists_base_of_load`
    * `Catalog.load_eq_ok`
    * `Catalog.exists_entries_of_asset?`
-/

namespace LootFilter

namespace Catalog

variable {d : Disk} {dir : Path} {c : Catalog}

/- Classes leave all else of a catalog alone. -/
structure SameTables (c next : Catalog) : Prop where
  names : next.names = c.names
  runes : next.runes = c.runes
  assets : next.assets = c.assets

/- Adding items to classes leaves all else alone. -/
theorem sameTables_foldl
    {α : Type}
    {step : Catalog → α → Catalog}
    (hStep : ∀ c a, SameTables c (step c a))
    (c : Catalog)
    (as : List α) :
    SameTables c (as.foldl step c) := by
  induction as generalizing c with
  | nil => exact ⟨rfl, rfl, rfl⟩
  | cons a as ih =>
      have hFirst := hStep c a
      have hRest := ih (step c a)
      exact
        ⟨hRest.names.trans hFirst.names,
          hRest.runes.trans hFirst.runes,
          hRest.assets.trans hFirst.assets⟩

/- Adding an item to a class leaves all else alone. -/
theorem sameTables_addItem
    (c : Catalog)
    (k : ItemClass)
    (code : String) :
    SameTables c (c.addItem k code) := by
  unfold addItem
  split <;> exact ⟨rfl, rfl, rfl⟩

/- The assets of an index are added to those before them. -/
theorem mem_addAssets
    {c : Catalog}
    {entries : List (String × String)}
    {entry : String × String}
    (hMem : entry ∈ (c.addAssets entries).assets) :
    entry ∈ entries ∨ entry ∈ c.assets := by
  unfold addAssets at hMem
  induction entries generalizing c with
  | nil => exact Or.inr hMem
  | cons first entries ih =>
      rcases ih hMem with hRest | hSet
      · exact Or.inl (List.mem_cons_of_mem _ hRest)
      · rcases Assoc.eq_or_mem_of_mem_set hSet with
          rfl | hOld
        · exact Or.inl List.mem_cons_self
        · exact Or.inr hOld

/- An index leaves the tables alone. -/
theorem tables_addAssets
    (c : Catalog)
    (entries : List (String × String)) :
    (c.addAssets entries).names = c.names ∧
      (c.addAssets entries).runes = c.runes := by
  unfold addAssets
  induction entries generalizing c with
  | nil => exact ⟨rfl, rfl⟩
  | cons first entries ih =>
      exact ih (c.setAsset first.1 first.2)

/-
  A catalog that is loaded has the two tables of its files,
  and the entries of the index are its only assets.
-/
theorem exists_base_of_load
    (hLoad : load d dir = .ok c) :
    ∃ (base : Catalog) (entries : List (String × String)),
      loadEntries d (DataFile.itemNames dir) = .ok base.names ∧
        loadEntries d (DataFile.itemRunes dir) =
          .ok base.runes ∧
        base.assets = [] ∧
        loadIfFile (loadJson assetIndexOfDocument) d
            (DataFile.assetIndex dir) = .ok entries ∧
        c = base.addAssets entries := by
  unfold load at hLoad
  rcases bind_eq_ok_iff.mp hLoad with ⟨names, hNames, hLoad⟩
  rcases bind_eq_ok_iff.mp hLoad with ⟨runes, hRunes, hLoad⟩
  rcases bind_eq_ok_iff.mp hLoad with ⟨armor, _, hLoad⟩
  rcases bind_eq_ok_iff.mp hLoad with ⟨misc, _, hLoad⟩
  rcases bind_eq_ok_iff.mp hLoad with
    ⟨entries, hEntries, hDone⟩
  cases hDone
  have hArmor :
      SameTables ⟨names, runes, [], []⟩
        (addArmor ⟨names, runes, [], []⟩ armor) :=
    sameTables_foldl
      (fun c row => sameTables_addItem c _ row.code) _ armor
  have hMisc :
      SameTables (addArmor ⟨names, runes, [], []⟩ armor)
        ((addArmor ⟨names, runes, [], []⟩ armor).addMisc
          misc) := by
    apply sameTables_foldl
    intro c row
    split
    · exact ⟨rfl, rfl, rfl⟩
    · exact sameTables_addItem c _ row.code
  refine ⟨_, entries, ?_, ?_, ?_, hEntries, rfl⟩
  · rw [hNames]
    exact congrArg _ (hMisc.names.trans hArmor.names).symm
  · rw [hRunes]
    exact congrArg _ (hMisc.runes.trans hArmor.runes).symm
  · exact hMisc.assets.trans hArmor.assets

/- What a catalog that is loaded has been read from. -/
theorem load_eq_ok
    (hLoad : load d dir = .ok c) :
    loadEntries d (DataFile.itemNames dir) = .ok c.names ∧
      loadEntries d (DataFile.itemRunes dir) = .ok c.runes ∧
      ∃ entries,
        loadIfFile (loadJson assetIndexOfDocument) d
            (DataFile.assetIndex dir) = .ok entries ∧
          ∀ entry ∈ c.assets, entry ∈ entries := by
  rcases exists_base_of_load hLoad with
    ⟨base, entries, hNames, hRunes, hNone, hEntries, rfl⟩
  have hTables := tables_addAssets base entries
  rw [hTables.1, hTables.2]
  refine ⟨hNames, hRunes, entries, hEntries, ?_⟩
  intro entry hMem
  rcases mem_addAssets hMem with hNew | hOld
  · exact hNew
  · rw [hNone] at hOld
    cases hOld

/- An index of assets is an array. -/
theorem readsArrays_assetIndex :
    Json.ReadsArrays assetIndexOfDocument := by
  intro document entries hRead
  unfold assetIndexOfDocument at hRead
  rcases bind_eq_ok_iff.mp hRead with ⟨groups, hGroups, _⟩
  exact Json.readsArrays_each _ document groups hGroups

/- A document is loaded as its file has it. -/
theorem loadJson_eq_ok_iff
    {α : Type}
    {read : Json.Document → Except Json.Fault α}
    {path : Path}
    {a : α} :
    loadJson read d path = .ok a ↔
      DataFile.readJson read d path = .ok a := by
  unfold loadJson
  cases hRead : DataFile.readJson read d path with
  | ok b => simp
  | error e => cases e <;> simp

/- The rows of an item table are loaded from its place. -/
theorem loadItems_of_locate
    {p q : Path}
    (hSame : d.locate p = d.locate q)
    {rows : List ItemTable.ItemRow}
    (hLoad : loadItems d p = .ok rows) :
    loadItems d q = .ok rows := by
  unfold loadItems at hLoad ⊢
  rw [← (Disk.read_of_locate hSame).1]
  split at hLoad
  · cases hLoad
  · split at hLoad
    · cases hLoad
    · cases hLoad
    · exact hLoad

/- So is a document. -/
theorem loadJson_of_locate
    {α : Type}
    {read : Json.Document → Except Json.Fault α}
    {p q : Path}
    (hSame : d.locate p = d.locate q)
    {a : α}
    (hLoad : loadJson read d p = .ok a) :
    loadJson read d q = .ok a := by
  rw [loadJson_eq_ok_iff, DataFile.readJson_eq_ok_iff] at hLoad ⊢
  rw [← hSame]
  exact hLoad

/- So is what may be missing. -/
theorem loadIfFile_of_locate
    {α : Type}
    {read : Disk → Path → Except CatalogError (List α)}
    {p q : Path}
    (hSame : d.locate p = d.locate q)
    (hRead : ∀ as, read d p = .ok as → read d q = .ok as)
    {as : List α}
    (hLoad : loadIfFile read d p = .ok as) :
    loadIfFile read d q = .ok as := by
  unfold loadIfFile at hLoad ⊢
  rw [← (Disk.read_of_locate hSame).2]
  split at hLoad
  · rename_i hFile
    rw [if_pos hFile]
    exact hRead as hLoad
  · rename_i hNone
    rw [if_neg hNone]
    exact hLoad

/- The files that a catalog is loaded from. -/
def sources : List (Path → Path) :=
  [ DataFile.itemNames, DataFile.itemRunes,
    DataFile.armorTable, DataFile.miscTable,
    DataFile.assetIndex ]

/-
  A catalog does not depend on how its directory is spelled,
  as long as its files are found.
-/
theorem load_of_locate
    {other : Path}
    (hSame :
      ∀ file ∈ sources,
        d.locate (file dir) = d.locate (file other))
    (hLoad : load d dir = .ok c) :
    load d other = .ok c := by
  simp only [sources, List.forall_mem_cons] at hSame
  rcases hSame with
    ⟨hNamesAt, hRunesAt, hArmorAt, hMiscAt, hIndexAt, _⟩
  unfold load at hLoad
  rcases bind_eq_ok_iff.mp hLoad with ⟨names, hNames, hLoad⟩
  rcases bind_eq_ok_iff.mp hLoad with ⟨runes, hRunes, hLoad⟩
  rcases bind_eq_ok_iff.mp hLoad with ⟨armor, hArmor, hLoad⟩
  rcases bind_eq_ok_iff.mp hLoad with ⟨misc, hMisc, hLoad⟩
  rcases bind_eq_ok_iff.mp hLoad with ⟨index, hIndex, hDone⟩
  have hNames := loadJson_of_locate hNamesAt hNames
  have hRunes := loadJson_of_locate hRunesAt hRunes
  have hArmor := loadItems_of_locate hArmorAt hArmor
  have hMisc :=
    loadIfFile_of_locate hMiscAt
      (fun _ => loadItems_of_locate hMiscAt) hMisc
  have hIndex :=
    loadIfFile_of_locate hIndexAt
      (fun _ => loadJson_of_locate hIndexAt) hIndex
  unfold load loadEntries
  simp only [hNames, hRunes, hArmor, hMisc, hIndex]
  exact hDone

/- The rows of the table of runes or of other names. -/
def table (c : Catalog) (rune : Bool) : List Entry :=
  if rune then c.runes else c.names

/- An asset of a loaded catalog is one of the index. -/
theorem exists_entries_of_asset?
    (hLoad : load d dir = .ok c)
    {base name : String}
    (hAsset : c.asset? base = some name) :
    ∃ entries,
      DataFile.readJson assetIndexOfDocument d
          (DataFile.assetIndex dir) = .ok entries ∧
        (base, name) ∈ entries := by
  rcases (load_eq_ok hLoad).2.2 with
    ⟨entries, hEntries, hAll⟩
  have hMem := hAll _ (Assoc.mem_of_find?_eq_some hAsset)
  unfold loadIfFile at hEntries
  split at hEntries
  · exact ⟨entries, loadJson_eq_ok_iff.mp hEntries, hMem⟩
  · cases hEntries
    cases hMem

end Catalog

end LootFilter
