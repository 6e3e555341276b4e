import LootFilter.Proofs.Backup.Places
import LootFilter.Proofs.Backup.Sessions
import LootFilter.Proofs.Backup.Written
import LootFilter.Proofs.Command.Stages
import LootFilter.Proofs.Writer.Descriptors

/-
  Runs touch nothing but the files that are restored.

  If the index of assets names no file outside its folder, a
  run writes below the roots of the data directory only, and
  never over the index itself: a file that is written as a
  descriptor has entities, and the index is an array.  So the
  index stays what it was for all later runs.

  Main declarations:
    * `Backup.AssetsInside`
    * `Backup.Confined`
    * `Backup.Confined.restoreAll`
    * `Backup.Confined.finish`
    * `Backup.Confined.call`
-/

namespace LootFilter

namespace Backup

open Json (Value)

variable {before now : Disk} {dir l : Location} {path : Path}

------------------------------------------------------------
-- The Invariant
------------------------------------------------------------

/-
  Whether the index of assets, if there is one, names files in
  its folder or below only.
-/
def AssetsInside (before : Disk) (dir : Location) : Prop :=
  ∀ bytes entries,
    before.node? (DataFile.indexPlace dir) =
        some (.file bytes) →
      DataFile.Holds assetIndexOfDocument bytes entries →
        ∀ entry ∈ entries, DataFile.IsInside entry.2

/-
  Whether a tree has the first files kept and differs from the
  first tree below the roots only, not at the index of assets.
-/
structure Confined
    (before : Disk)
    (dir : Location)
    (now : Disk) : Prop where
  kept : Kept before dir now
  outside :
    ∀ l, ¬ UnderRoot dir l → now.node? l = before.node? l
  index :
    now.node? (DataFile.indexPlace dir) =
      before.node? (DataFile.indexPlace dir)

/- The first tree is one. -/
theorem Confined.refl
    (hTree : before.WellFormed)
    (hPristine : Pristine before dir) :
    Confined before dir before where
  kept := Kept.refl hTree hPristine
  outside _ _ := rfl
  index := rfl

/- The name of the index is not that of a copy. -/
theorem copyPlace_ne_indexPlace (dir l : Location) :
    copyPlace l ≠ DataFile.indexPlace dir := by
  have hName := isBackupName_append_json "items"
  have hPlace :
      DataFile.indexPlace dir =
        (dir ++ ["hd", "items"]) ++ ["items" ++ ".json"] := by
    simp [DataFile.indexPlace]
  rw [hPlace]
  exact copyPlace_ne hName

/- Moving copies back keeps to these places. -/
theorem steady_confined
    (hTree : before.WellFormed)
    (hPristine : Pristine before dir) :
    Steady before dir (Confined before dir) where
  kept _ := Confined.kept
  moved := by
    intro d f hConfined hCopied
    have hNode :=
      hConfined.kept.node?_moveBack hPristine hCopied
    refine
      ⟨hConfined.kept.moveBack hTree hPristine hCopied, ?_, ?_⟩
    · intro l hOutside
      have hFile : l ≠ f := by
        rintro rfl
        exact hOutside hCopied.1
      have hCopy : l ≠ copyPlace f := by
        rintro rfl
        exact hOutside (underRoot_copyPlace_iff.mpr hCopied.1)
      rw [hNode, if_neg hFile, if_neg hCopy]
      exact hConfined.outside l hOutside
    · rw [hNode, if_neg (copyPlace_ne_indexPlace dir f).symm]
      split
      · rename_i hSame
        rw [hSame]
      · exact hConfined.index

/- So restoring does, under every spelling. -/
theorem Confined.restoreAll
    (hConfined : Confined before dir now)
    (hTree : before.WellFormed)
    (hPristine : Pristine before dir)
    (hDirectory : before.locate path = .ok dir) :
    Confined before dir (restoreAll now path).disk :=
  (steady_confined hTree hPristine).restoreAll hTree hPristine
    hDirectory hConfined

------------------------------------------------------------
-- Staged Files
------------------------------------------------------------

/- A tree with the first files leads to the same places. -/
theorem Confined.locate_eq_ok_iff
    (hConfined : Confined before dir now)
    {p : Path} :
    now.locate p = .ok l ↔ before.locate p = .ok l :=
  ⟨hConfined.kept.folders.symm.locate_eq_ok,
    hConfined.kept.folders.locate_eq_ok⟩

/-
  The descriptor of an asset that has entities is below the
  folder of the index, and is not the index.
-/
theorem Confined.underRoot_of_asset
    (hConfined : Confined before dir now)
    (hAssets : AssetsInside before dir)
    (hDirectory : now.locate path = .ok dir)
    {catalog : Catalog}
    (hLoad : Catalog.load now path = .ok catalog)
    {base name : String}
    (hAsset : catalog.asset? base = some name)
    {doc : Value}
    (hRead :
      DataFile.readJson Json.Document.value now
        (DataFile.asset path name) = .ok doc)
    (hEntities : VisualEffect.entities? doc ≠ none)
    (hLocate : now.locate (DataFile.asset path name) = .ok l) :
    UnderRoot dir l ∧ l ≠ DataFile.indexPlace dir := by
  rcases Catalog.exists_entries_of_asset? hLoad hAsset with
    ⟨entries, hIndex, hMem⟩
  rcases DataFile.readJson_eq_ok_iff.mp hIndex with
    ⟨place, bytes, hPlace, hFile, hHolds⟩
  have hApart :=
    DataFile.locate_ne_of_readsArrays
      Catalog.readsArrays_assetIndex hIndex hRead hEntities
  cases DataFile.eq_of_locate_assetIndex hDirectory hPlace
  -- The index is the first one, so its names are inside.
  have hInside :=
    hAssets bytes entries (hConfined.index ▸ hFile) hHolds
      (base, name) hMem
  constructor
  · rcases DataFile.exists_of_locate_asset hInside hDirectory
        hLocate with
      ⟨names, last, rfl⟩
    exact
      ⟨"hd", by decide, "items" :: (names ++ [last ++ ".json"]),
        by simp, by simp⟩
  · rintro rfl
    exact hApart (hPlace.trans hLocate.symm)

/-
  A file that a writer stages for a loaded catalog is below a
  root, and is not the index.
-/
theorem Confined.underRoot_of_mem_files
    (hConfined : Confined before dir now)
    (hAssets : AssetsInside before dir)
    (hDirectory : now.locate path = .ok dir)
    {catalog : Catalog}
    (hLoad : Catalog.load now path = .ok catalog)
    {rules : List Rule}
    {w : Writer}
    (hStaged :
      (Writer.new path catalog).writeAll now rules = (w, none))
    {entry : Path × Value}
    (hMem : entry ∈ w.files)
    (hLocate : now.locate entry.1 = .ok l) :
    UnderRoot dir l ∧ l ≠ DataFile.indexPlace dir := by
  rcases (Writer.describes_new now path catalog).performAll
      hStaged with
    ⟨hDescribes, hTarget⟩
  rcases Writer.mem_files_iff.mp hMem with
    ⟨rune, rows, _, rfl⟩ | ⟨staged, hStagedAsset, rfl⟩
  · apply DataFile.underRoot_of_locate_tables hDirectory
    rw [hTarget.dir] at hLocate
    cases rune with
    | false => exact Or.inl hLocate
    | true => exact Or.inr hLocate
  · rcases hDescribes staged hStagedAsset with
      ⟨base, name, doc, hAsset, hPath, hRead, hEntities⟩
    rw [hTarget.catalog] at hAsset
    rw [hTarget.dir] at hPath
    rw [hPath] at hRead
    dsimp only at hLocate
    rw [hPath] at hLocate
    exact
      hConfined.underRoot_of_asset hAssets hDirectory hLoad
        hAsset hRead hEntities hLocate

/- So staged files are apart from all else, and the index. -/
theorem Confined.apartFrom_of_mem_files
    (hConfined : Confined before dir now)
    (hAssets : AssetsInside before dir)
    {options : CommandLine.Options}
    (hDirectory :
      now.locate (Path.ofText options.dir) = .ok dir)
    {w : Writer}
    (hStaged : options.staged? now = some w)
    {x : Location}
    (hPlace : ¬ UnderRoot dir x ∨ x = DataFile.indexPlace dir) :
    ∀ entry ∈ w.files, ApartFrom now entry.1 x := by
  rcases CommandLine.Options.staged?_eq_some hStaged with
    ⟨catalog, filter, hLoad, hWrite⟩
  intro entry hMem l hLocate
  rcases hConfined.underRoot_of_mem_files hAssets hDirectory
      hLoad hWrite hMem hLocate with
    ⟨hUnder, hIndex⟩
  rcases hPlace with hOutside | rfl
  · constructor
    · rintro rfl
      exact hOutside hUnder
    · rintro rfl
      exact hOutside (underRoot_copyPlace_iff.mpr hUnder)
  · exact
      ⟨hIndex.symm, (copyPlace_ne_indexPlace dir l).symm⟩

------------------------------------------------------------
-- Calls of the Program
------------------------------------------------------------

/-
  Finishing a staged writer keeps to these places, wherever it
  stops, unless a copy is broken off.
-/
theorem Confined.finish
    (hConfined : Confined before dir now)
    (hPristine : Pristine before dir)
    (hAssets : AssetsInside before dir)
    {options : CommandLine.Options}
    (hDirectory :
      now.locate (Path.ofText options.dir) = .ok dir)
    {w : Writer}
    (hStaged : options.staged? now = some w)
    {device : Device}
    (hWhole : ∀ l, ¬ device.Tears before l) :
    Confined before dir (w.finish device now).disk := by
  have hWriter := CommandLine.namesDocuments_of_staged? hStaged
  have hKept :
      KeptBut (fun _ => False) before dir
        (w.finish device now).disk :=
    hConfined.kept.keptBut.finish hPristine hWriter hWhole
  have hSpares :
      Spares (fun x => ∀ entry ∈ w.files, ApartFrom now entry.1 x)
        now (w.finish device now).disk := by
    apply spares_writeFiles
    intro entry hMem
    exact Writer.isDocument_of_mem_files hWriter hMem
  have hApart :
      ∀ x,
        ¬ UnderRoot dir x ∨ x = DataFile.indexPlace dir →
          (w.finish device now).disk.node? x = now.node? x := by
    intro x hPlace
    apply hSpares.node
    exact
      hConfined.apartFrom_of_mem_files hAssets hDirectory
        hStaged hPlace
  refine ⟨hKept.toKept fun _ => id, ?_, ?_⟩
  · intro x hOutside
    rw [hApart x (Or.inl hOutside), hConfined.outside x hOutside]
  · rw [hApart _ (Or.inr rfl), hConfined.index]

/-
  A call keeps to these places, wherever it stops, unless a
  copy is broken off.
-/
theorem Confined.call
    (hConfined : Confined before dir now)
    (hTree : before.WellFormed)
    (hPristine : Pristine before dir)
    (hAssets : AssetsInside before dir)
    {call : CommandLine.Call}
    (hCall : call.ActsOn before dir)
    (hWhole : ∀ l, ¬ call.device.Tears before l) :
    Confined before dir (call.after now) := by
  have hStep := CommandLine.callStep now call
  generalize call.after now = next at hStep ⊢
  cases hStep with
  | idle => exact hConfined
  | stopped hRequest halt =>
      exact
        (steady_confined hTree hPristine).restoreUntil hTree
          hPristine (hCall _ hRequest) hConfined halt
  | restored hRequest =>
      exact
        hConfined.restoreAll hTree hPristine (hCall _ hRequest)
  | written hRequest hRestored hStaged =>
      have hBack :=
        hConfined.restoreAll hTree hPristine (hCall _ hRequest)
      rw [hRestored] at hBack
      exact
        hBack.finish hPristine hAssets
          (hBack.locate_eq_ok_iff.mpr (hCall _ hRequest))
          hStaged hWhole

end Backup

end LootFilter
