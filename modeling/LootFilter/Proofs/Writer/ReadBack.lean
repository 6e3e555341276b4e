import LootFilter.Proofs.Backup.Written
import LootFilter.Proofs.Json.Printed
import LootFilter.Proofs.Writer.EffectsOnce
import LootFilter.Proofs.Writer.Order

/-
  Documents that are written can be read back.

  What a writer stages was read from documents and changed by
  names and effects, which put no deep values there.  So it
  stays a value that documents have, and what is written of it
  is read as that value, unless floating point numbers are in
  it.  A file that two spellings of an asset's name lead to is
  staged twice; it holds what is written to it last.

  Main declarations:
    * `VisualEffect.within_of_apply`
    * `Writer.StagesWithin`
    * `Writer.ReadsAs`
    * `Writer.readsAs_finish`
-/

namespace LootFilter

open Json (Document Value Number)

------------------------------------------------------------
-- Rows
------------------------------------------------------------

variable {depth : Nat}

/- A rename puts a text into a row. -/
theorem Rule.within_renameRow
    {row : Value}
    (hRow : row.Within (depth + 1))
    (rule : Rule) :
    (rule.renameRow row).Within (depth + 1) := by
  unfold renameRow
  dsimp only
  split
  · exact hRow
  · exact hRow.setMember (.text _) "enUS"

/- So it keeps the rows of a table such values. -/
theorem within_renameFirst
    {rows : List Value}
    (hRows : ∀ row ∈ rows, row.Within (depth + 1))
    (base : String)
    (rule : Rule) :
    ∀ row ∈ renameFirst rows (base, rule),
      row.Within (depth + 1) := by
  induction rows with
  | nil =>
      rw [renameFirst_nil]
      exact hRows
  | cons row rows ih =>
      rw [List.forall_mem_cons] at hRows
      rw [renameFirst_cons]
      split
      · exact
          List.forall_mem_cons.mpr
            ⟨rule.within_renameRow hRows.1, hRows.2⟩
      · exact
          List.forall_mem_cons.mpr ⟨hRows.1, ih hRows.2⟩

------------------------------------------------------------
-- Effects
------------------------------------------------------------

namespace VisualEffect

variable {effect : VisualEffect} {doc result : Value}

/- The entity of an effect is a value that documents have. -/
theorem within_entity (effect : VisualEffect) :
    effect.entity.Within (depth + 4) := by
  cases effect <;>
    simp [entity, components, transformComponent, showComponent,
      Assoc.keys, Value.ofInt, Number.Fits, entityId]

/- Listing particles puts a path into an array. -/
theorem within_withParticles
    (hDoc : doc.Within (depth + 4)) :
    (withParticles doc).Within (depth + 4) := by
  by_cases hList : particleList? doc = none
  · have hSame : withParticles doc = doc := by
      unfold withParticles
      cases hPush : pushParticles doc with
      | error fault => rfl
      | ok ready =>
          exact
            absurd hList (pushParticles_eq_ok_iff.mp hPush).1
    rw [hSame]
    exact hDoc
  · rcases exists_dependencies_of_particleList? hList with
      ⟨dependencies, list, hDependencies, hParticles, hReady⟩
    have hInner := hDoc.member? hDependencies
    have hItems := hInner.member? hParticles
    rw [hReady]
    apply hDoc.setMember
    apply hInner.setMember
    apply hItems.concat
    simp [Assoc.keys]

/- An effect puts an entity into the descriptor. -/
theorem within_of_apply
    (hDoc : doc.Within (depth + 6))
    (hApply : effect.apply doc = .ok result) :
    result.Within (depth + 6) := by
  cases hEntities : entities? doc with
  | none => exact absurd hApply (apply_ne_ok hEntities)
  | some entities =>
      rw [apply_eq_ok_iff hEntities] at hApply
      split at hApply
      · rw [hApply]
        exact hDoc
      · rw [hApply.2]
        have hListed :
            (Value.array (entities ++ [effect.entity])).Within
              (depth + 5) :=
          (hDoc.member? (entities?_eq_some_iff.mp
            hEntities)).concat (within_entity effect)
        unfold withEffects
        dsimp only
        split
        · exact
            (within_withParticles hDoc).setMember hListed
              "entities"
        · exact hDoc.setMember hListed "entities"

end VisualEffect

------------------------------------------------------------
-- Staged Documents
------------------------------------------------------------

namespace Writer

variable {disk next : Disk} {w : Writer} {path : Path}

/- Whether all that is staged are values that documents have. -/
structure StagesWithin (w : Writer) : Prop where
  tables :
    ∀ rune rows,
      w.staging.table rune = some rows →
        (Value.array rows).Within Document.maxDepth
  assets :
    ∀ entry ∈ w.staging.assets,
      entry.2.doc.Within Document.maxDepth

/- Nothing is staged in a new writer. -/
theorem stagesWithin_new
    (dir : Path)
    (catalog : Catalog) :
    (new dir catalog).StagesWithin where
  tables := by
    rintro (_ | _) rows hTable <;> cases hTable
  assets := nofun

/- The staged files are such values. -/
theorem StagesWithin.of_mem_files
    (hStaged : w.StagesWithin)
    {entry : Path × Value}
    (hMem : entry ∈ w.files) :
    entry.2.Within Document.maxDepth := by
  rcases mem_files_iff.mp hMem with
    ⟨rune, rows, hTable, rfl⟩ | ⟨staged, hAsset, rfl⟩
  · exact hStaged.tables rune rows hTable
  · exact hStaged.assets staged hAsset

/- A document that is read is such a value. -/
theorem within_of_readJson
    {v : Value}
    (hRead :
      DataFile.readJson Document.value disk path = .ok v) :
    v.Within Document.maxDepth := by
  rcases DataFile.readJson_eq_ok_iff.mp hRead with
    ⟨_, _, _, _, _, _, hDecode⟩
  exact Document.within_of_value hDecode

/- So are the rows of a table that are staged or read. -/
theorem StagesWithin.loadTable
    (hStaged : w.StagesWithin)
    {rune : Bool}
    {rows : List Value}
    (hLoad :
      loadTable disk path (w.staging.table rune) = .ok rows) :
    (Value.array rows).Within Document.maxDepth := by
  unfold Writer.loadTable at hLoad
  split at hLoad
  · rename_i hTable
    cases hLoad
    exact hStaged.tables rune rows hTable
  · rcases DataFile.readJson_eq_ok_iff.mp
        (readJson_eq_ok_iff.mp hLoad) with
      ⟨_, _, _, _, _, _, hDecode⟩
    exact Document.within_of_values hDecode

/- So is a descriptor that is staged or read. -/
theorem StagesWithin.loadAsset
    (hStaged : w.StagesWithin)
    {a : StagedAsset}
    (hLoad : loadAsset disk w path = .ok a) :
    a.doc.Within Document.maxDepth := by
  rcases loadAsset_eq_ok hLoad with hFound | ⟨_, _, hRead⟩
  · exact hStaged.assets _ (Assoc.mem_of_find?_eq_some hFound)
  · exact within_of_readJson hRead

/- Staging a descriptor that is one keeps all that is staged. -/
theorem StagesWithin.stageAsset
    (hStaged : w.StagesWithin)
    (key : List String)
    (a : StagedAsset)
    (hDoc : a.doc.Within Document.maxDepth) :
    (w.stageAsset key a).StagesWithin where
  tables := hStaged.tables
  assets := by
    intro entry hMem
    rcases Assoc.eq_or_mem_of_mem_set hMem with rfl | hOld
    · exact hDoc
    · exact hStaged.assets entry hOld

/- A name that cannot be staged changes nothing. -/
theorem eq_of_performRename
    {base : String}
    {rule : Rule}
    {next : Writer}
    {e : WriteError}
    (hPerform :
      performRename disk w base rule = (next, some e)) :
    next = w := by
  unfold performRename at hPerform
  dsimp only at hPerform
  split at hPerform
  · split at hPerform <;> cases hPerform
    rfl
  · split at hPerform <;> cases hPerform
    rfl

/- Staging an edit keeps all that is staged such values. -/
theorem StagesWithin.perform
    (hStaged : w.StagesWithin)
    (disk : Disk)
    (edit : Edit) :
    (perform disk w edit).1.StagesWithin := by
  cases edit with
  | rename base rule =>
      have hAssets := assets_performRename disk w base rule
      rw [Writer.perform]
      cases hPerform : performRename disk w base rule with
      | mk next failure =>
          cases failure with
          | some e =>
              rw [eq_of_performRename hPerform]
              exact hStaged
          | none =>
              rw [hPerform] at hAssets
              refine ⟨?_, hAssets ▸ hStaged.assets⟩
              intro rune rows hTable
              have hTables := (performRename_eq_ok hPerform).2 rune
              split at hTables
              · rcases hTables with ⟨before, hLoad, hNew⟩
                cases hNew.symm.trans hTable
                have hRows := hStaged.loadTable hLoad
                exact
                  Value.within_array_iff.mpr
                    (within_renameFirst
                      (Value.within_array_iff.mp hRows) base
                      rule)
              · exact
                  hStaged.tables rune rows
                    (hTables.symm.trans hTable)
  | addEffect base effect =>
      rw [Writer.perform]
      rcases performEffect_cases disk w base effect with
        ⟨_, hPerform⟩ | ⟨name, path, _, _, hCases⟩
      · rw [hPerform]
        exact hStaged
      · rcases hCases with
          ⟨e, _, hPerform⟩ | ⟨a, fault, hLoad, _, hPerform⟩ |
            ⟨a, doc, hLoad, hApply, hPerform⟩
        · rw [hPerform]
          exact hStaged
        · rw [hPerform]
          exact hStaged.stageAsset _ a (hStaged.loadAsset hLoad)
        · rw [hPerform]
          exact
            hStaged.stageAsset _ ⟨a.path, doc⟩
              (VisualEffect.within_of_apply
                (hStaged.loadAsset hLoad) hApply)

/- So what a writer stages are such values. -/
theorem stagesWithin_writeEach
    (dir : Path)
    (catalog : Catalog)
    (calls : List (Disk × Rule)) :
    ((new dir catalog).writeEach calls).StagesWithin :=
  writeEach_preserves
    (fun disk _ edit hHolds => hHolds.perform disk edit)
    (stagesWithin_new dir catalog) calls

------------------------------------------------------------
-- Reading Back
------------------------------------------------------------

/-
  Whether a file holds the text of a value, and is read as the
  value; an array is also read as a table.
-/
structure ReadsAs
    (disk : Disk)
    (path : Path)
    (v : Value) : Prop where
  text : DataFile.readText disk path = .ok v.print
  value : readJson Document.value disk path = .ok v
  table :
    ∀ rows,
      v = .array rows →
        readJson Document.values disk path = .ok rows

/- It does if the bytes of the value stand at its place. -/
theorem readsAs_of_node?
    {l : Location}
    {v : Value}
    (hLocate : disk.locate path = .ok l)
    (hNode :
      disk.node? l = some (.file (DataFile.encodeJson v)))
    (hWithin : v.Within Document.maxDepth)
    (hWhole : ∀ n ∈ v.numbers, n.IsWhole) :
    ReadsAs disk path v where
  text :=
    DataFile.readText_eq_ok_iff.mpr
      ⟨_, _, Disk.read_eq_ok_iff.mpr ⟨l, hLocate, hNode⟩,
        DataFile.fromUTF8?_toUTF8 _, DataFile.dropMark_append _⟩
  value := by
    rw [readJson_eq_ok_iff, DataFile.readJson_eq_ok_iff]
    exact
      ⟨l, _, hLocate, hNode,
        DataFile.holds_encodeJson hWithin hWhole⟩
  table := by
    rintro rows rfl
    have hHolds := DataFile.holds_encodeJson hWithin hWhole
    rw [readJson_eq_ok_iff, DataFile.readJson_eq_ok_iff]
    exact ⟨l, _, hLocate, hNode, hHolds.values⟩

/- Under another spelling the same value is read. -/
theorem ReadsAs.eq_of_locate
    {other : Path}
    {u v : Value}
    (hReads : ReadsAs disk path v)
    (hSame : disk.locate other = disk.locate path)
    (hRead : readJson Document.value disk other = .ok u) :
    u = v := by
  rcases DataFile.readJson_eq_ok_iff.mp
      (readJson_eq_ok_iff.mp hRead) with
    ⟨l, bytes, hLocate, hNode, hHolds⟩
  rcases DataFile.readJson_eq_ok_iff.mp
      (readJson_eq_ok_iff.mp hReads.value) with
    ⟨m, present, hPlace, hPresent, hOther⟩
  cases hLocate.symm.trans (hSame.trans hPlace)
  cases hNode.symm.trans hPresent
  exact hHolds.unique hOther

/- A document is read back from where it was written. -/
theorem readsAs_of_writeJson
    {v : Value}
    {t : Transfer}
    (hWrite : DataFile.writeJson t disk path v = (next, none))
    (hWithin : v.Within Document.maxDepth)
    (hWhole : ∀ n ∈ v.numbers, n.IsWhole) :
    ReadsAs next path v := by
  rcases Disk.write_eq_none_iff.mp hWrite with
    ⟨_, l, hLocate, hFolder, rfl⟩
  have hFolders :=
    Backup.sameFolders_put hFolder (DataFile.encodeJson v)
  apply readsAs_of_node? (hFolders.locate_eq_ok hLocate) _
    hWithin hWhole
  rw [Disk.node?_put (Disk.ne_nil_of_not_folder hFolder),
    if_pos rfl]

/-
  A staged document is read back after finishing, unless a
  later one is written to its file.
-/
theorem StagesWithin.readsAs
    (hStaged : w.StagesWithin)
    (hNamed : w.NamesDocuments)
    {device : Device}
    {ready : Disk}
    (hDone : (w.finish device ready).failure = none)
    {before after : List (Path × Value)}
    {v : Value}
    (hFiles : w.files = before ++ (path, v) :: after)
    (hWhole : ∀ n ∈ v.numbers, n.IsWhole)
    (hLast :
      ∀ later ∈ after,
        ready.locate later.1 ≠ ready.locate path) :
    ReadsAs (w.finish device ready).disk path v := by
  have hDocuments : ∀ entry ∈ w.files, entry.1.IsDocument :=
    fun entry hMem => isDocument_of_mem_files hNamed hMem
  have hFolders :=
    (Backup.spares_writeFiles device ready hDocuments).folders
  have hMem : (path, v) ∈ w.files := by simp [hFiles]
  have hWithin : v.Within Document.maxDepth :=
    hStaged.of_mem_files hMem
  unfold finish at hDone ⊢
  rw [hFiles] at hDone hDocuments hFolders ⊢
  rcases Backup.exists_place_of_writeFiles hDocuments
      (fun later hMem l hLater hSame =>
        hLast later hMem (hLater.trans hSame.symm))
      hDone with
    ⟨l, hLocate, hNode⟩
  exact
    readsAs_of_node? (hFolders.locate_eq_ok hLocate) hNode
      hWithin hWhole

/-
  A written value is read back if it has no floating point
  number, its integers are held by 64 bits, the names in each
  object are distinct and at most 127 arrays and objects are
  open at a time.  So is a document that a writer has staged,
  after finishing, if it has no floating point number and no
  later document is written to the same file.
-/
theorem readsAs_finish
    (dir : Path)
    (catalog : Catalog)
    (calls : List (Disk × Rule))
    (device : Device)
    (ready : Disk) :
    (∀ (t : Transfer) (disk next : Disk) (path : Path)
        (v : Value),
      v.Within 127 →
        (∀ n ∈ v.numbers, n.IsWhole) →
          DataFile.writeJson t disk path v = (next, none) →
            ReadsAs next path v) ∧
    let w := (new dir catalog).writeEach calls
    (w.finish device ready).failure = none →
      ∀ before path v after,
        w.files = before ++ (path, v) :: after →
          (∀ n ∈ v.numbers, n.IsWhole) →
            (∀ later ∈ after,
              ready.locate later.1 ≠ ready.locate path) →
              ReadsAs (w.finish device ready).disk path v := by
  refine ⟨?_, ?_⟩
  · intro t disk next path v hWithin hWhole hWrite
    exact readsAs_of_writeJson hWrite hWithin hWhole
  · intro w hDone before path v after hFiles hWhole hLast
    exact
      (stagesWithin_writeEach dir catalog calls).readsAs
        ((namesDocuments_new dir catalog).writeEach calls)
        hDone hFiles hWhole hLast

/- A writer after each of two rules for one or two assets. -/
def sharedWriter (name : String) : Writer :=
  (new ⟨["."]⟩ (sharedCatalog name)).writeEach
    (sharedRules.map (sharedTree, ·))

/- A value with both ends of the integers and odd texts. -/
def oddValue : Value :=
  .array
    [.ofInt (-0x8000000000000000), .ofInt 0xffffffffffffffff,
      .text "\uFEFF\"\\\x01😀", .array [], .object [],
      .object [("b", .null), ("a", .bool true)]]

/- Two rules for one asset leave one document, read back. -/
theorem readsAs_finish_shared :
    (∃ next,
      DataFile.writeJson .whole sharedTree ⟨["x.json"]⟩
            oddValue =
          (next, none) ∧
        ReadsAs next ⟨["x.json"]⟩ oddValue) ∧
      ((sharedWriter "./h//x").finish .sound
            sharedTree).failure =
          none ∧
        ∃ path v,
          (sharedWriter "./h//x").files = [(path, v)] ∧
            ReadsAs
              ((sharedWriter "./h//x").finish .sound
                sharedTree).disk
              path v := by
  rcases readsAs_finish ⟨["."]⟩ (sharedCatalog "./h//x")
      (sharedRules.map (sharedTree, ·)) .sound sharedTree with
    ⟨hValues, hStaged⟩
  refine ⟨⟨_, rfl, ?_⟩, ?_⟩
  · apply hValues .whole sharedTree _ ⟨["x.json"]⟩ oddValue _ _
      rfl
    · simp [oddValue, Value.ofInt, Number.Fits, Assoc.keys]
    · simp [oddValue, Value.ofInt, Value.numbers,
        Value.itemNumbers, Value.memberNumbers, Number.IsWhole]
  · have hDone :
        ((sharedWriter "./h//x").finish .sound
          sharedTree).failure = none := by
      decide +kernel
    have hOne : (sharedWriter "./h//x").files.length = 1 := by
      decide +kernel
    have hWhole :
        ∀ entry ∈ (sharedWriter "./h//x").files,
          ∀ n ∈ entry.2.numbers, n.IsWhole := by
      decide +kernel
    rcases List.length_eq_one_iff.mp hOne with
      ⟨⟨path, v⟩, hFiles⟩
    rw [hFiles, List.forall_mem_singleton] at hWhole
    exact
      ⟨hDone, path, v, hFiles,
        hStaged hDone [] path v [] hFiles hWhole (by simp)⟩

/-
  A document that is staged need not be read again.  If two
  names of assets lead to one file, each stages a document of
  its own, and the file holds the one that is written last.
-/
theorem readsAs_finish_aliased :
    ((sharedWriter "h/../h/x").finish .sound
          sharedTree).failure =
        none ∧
      ∃ entry ∈ (sharedWriter "h/../h/x").files,
        (∀ n ∈ entry.2.numbers, n.IsWhole) ∧
          readJson Document.value
              ((sharedWriter "h/../h/x").finish .sound
                sharedTree).disk entry.1 ≠
            .ok entry.2 := by
  have hStaged : (sharedWriter "h/../h/x").StagesWithin :=
    stagesWithin_writeEach _ _ _
  have hNamed : (sharedWriter "h/../h/x").NamesDocuments :=
    (namesDocuments_new _ _).writeEach _
  have hDone :
      ((sharedWriter "h/../h/x").finish .sound
        sharedTree).failure = none := by
    decide +kernel
  have hPlaces :
      ∀ entry ∈ (sharedWriter "h/../h/x").files,
        sharedTree.locate entry.1 =
          .ok ["hd", "items", "h", "x.json"] := by
    decide +kernel
  have hWhole :
      ∀ entry ∈ (sharedWriter "h/../h/x").files,
        ∀ n ∈ entry.2.numbers, n.IsWhole := by
    decide +kernel
  have hNames :
      (sharedWriter "h/../h/x").files.map
          (fun entry =>
            VisualEffect.isIn .glitter
              ((VisualEffect.entities? entry.2).getD [])) =
        [true, false] := by
    decide +kernel
  refine ⟨hDone, ?_⟩
  rcases List.map_eq_cons_iff.mp hNames with
    ⟨first, rest, hFiles, hFirst, hRest⟩
  rcases List.map_eq_singleton_iff.mp hRest with
    ⟨last, rfl, hLast⟩
  have hFolders :=
    (Backup.spares_writeFiles .sound sharedTree
      fun entry hMem => isDocument_of_mem_files hNamed hMem).folders
  rw [hFiles] at hPlaces hWhole
  simp only [List.forall_mem_cons] at hPlaces hWhole
  have hBehind :
      (sharedWriter "h/../h/x").files =
        [first] ++ [(last.1, last.2)] :=
    hFiles
  have hBack :=
    hStaged.readsAs hNamed hDone hBehind hWhole.2.1 (by simp)
  refine ⟨first, by simp [hFiles], hWhole.1, ?_⟩
  intro hRead
  have hSame :=
    (hFolders.locate_eq_ok hPlaces.1).trans
      (hFolders.locate_eq_ok hPlaces.2.1).symm
  rw [hBack.eq_of_locate hSame hRead, hLast] at hFirst
  cases hFirst

end Writer

end LootFilter
