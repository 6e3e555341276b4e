import LootFilter.Proofs.Catalog
import LootFilter.Proofs.Documents
import LootFilter.Proofs.Effects
import LootFilter.Proofs.Writer.Tables

/-
  Where the staged descriptors of assets come from.

  If all edits succeed, each staged descriptor was read from
  the file of an asset of the catalog, and has entities: an
  effect is put on no other document.

  Main declarations:
    * `Writer.loadAsset_eq_ok`
    * `Writer.performEffect_cases`
    * `Writer.Describes`
    * `Writer.SameTarget`
    * `Writer.Describes.performAll`
    * `Writer.mem_files_iff`
-/

namespace LootFilter

open Json (Document Value Fault)

namespace Writer

variable {disk : Disk} {w next : Writer} {path : Path}
variable {a : StagedAsset}

------------------------------------------------------------
-- Effects
------------------------------------------------------------

/- A descriptor is loaded from what is staged, or its file. -/
theorem loadAsset_eq_ok
    (hLoad : loadAsset disk w path = .ok a) :
    Assoc.find? path.components w.staging.assets = some a ∨
      Assoc.find? path.components w.staging.assets = none ∧
        a.path = path ∧
        DataFile.readJson Document.value disk path =
          .ok a.doc := by
  unfold loadAsset at hLoad
  split at hLoad
  · rename_i hFound
    cases hLoad
    exact Or.inl hFound
  · rename_i hNew
    rcases bind_eq_ok_iff.mp hLoad with ⟨doc, hRead, hDone⟩
    cases hDone
    exact Or.inr ⟨hNew, rfl, readJson_eq_ok_iff.mp hRead⟩

/- It cannot be loaded only if its file cannot be read. -/
theorem loadAsset_eq_error
    {e : WriteError}
    (hLoad : loadAsset disk w path = .error e)
    (doc : Value) :
    DataFile.readJson Document.value disk path ≠ .ok doc := by
  intro hRead
  unfold loadAsset at hLoad
  split at hLoad
  · cases hLoad
  · rw [readJson_eq_ok_iff.mpr hRead] at hLoad
    cases hLoad

/- What becomes of an effect that a base type is to have. -/
theorem performEffect_cases
    (disk : Disk)
    (w : Writer)
    (base : String)
    (effect : VisualEffect) :
    (w.catalog.asset? base = none ∧
      performEffect disk w base effect =
        (w, some (.noAsset base))) ∨
    ∃ name path,
      w.catalog.asset? base = some name ∧
        path = DataFile.asset w.dir name ∧
        ((∃ e,
          loadAsset disk w path = .error e ∧
            performEffect disk w base effect = (w, some e)) ∨
        (∃ a fault,
          loadAsset disk w path = .ok a ∧
            effect.apply a.doc = .error fault ∧
            performEffect disk w base effect =
              (w.stageAsset path.components a,
                some (.malformedAsset path fault.message))) ∨
        ∃ a doc,
          loadAsset disk w path = .ok a ∧
            effect.apply a.doc = .ok doc ∧
            performEffect disk w base effect =
              (w.stageAsset path.components ⟨a.path, doc⟩,
                none)) := by
  unfold performEffect
  cases w.catalog.asset? base with
  | none => exact Or.inl ⟨rfl, rfl⟩
  | some name =>
      refine Or.inr ⟨name, _, rfl, rfl, ?_⟩
      dsimp only
      cases loadAsset disk w (DataFile.asset w.dir name) with
      | error e => exact Or.inl ⟨e, rfl, rfl⟩
      | ok a =>
          right
          dsimp only
          cases hPut : effect.putOn.run a.doc with
          | error fault doc =>
              cases VisualEffect.eq_of_run_putOn hPut
              exact
                Or.inl
                  ⟨a, fault, rfl,
                    VisualEffect.apply_eq_error_iff_putOn.mpr hPut,
                    rfl⟩
          | ok _ doc =>
              exact
                Or.inr
                  ⟨a, doc, rfl,
                    VisualEffect.apply_eq_ok_iff_putOn.mpr hPut,
                    rfl⟩

------------------------------------------------------------
-- Origins
------------------------------------------------------------

/-
  Whether each staged descriptor is of an asset of the catalog
  and was read from its file, with entities.
-/
def Describes (disk : Disk) (w : Writer) : Prop :=
  ∀ entry ∈ w.staging.assets,
    ∃ base name doc,
      w.catalog.asset? base = some name ∧
        entry.2.path = DataFile.asset w.dir name ∧
        DataFile.readJson Document.value disk entry.2.path =
          .ok doc ∧
        VisualEffect.entities? doc ≠ none

/- Nothing is staged in a new writer. -/
theorem describes_new
    (disk : Disk)
    (dir : Path)
    (catalog : Catalog) :
    (new dir catalog).Describes disk := by
  intro entry hMem
  cases hMem

/- Staging keeps the directory and the catalog. -/
structure SameTarget (w next : Writer) : Prop where
  dir : next.dir = w.dir
  catalog : next.catalog = w.catalog

/- Staging an edit does. -/
theorem sameTarget_perform
    (disk : Disk)
    (w : Writer)
    (edit : Edit) :
    SameTarget w (perform disk w edit).1 := by
  cases edit with
  | rename base rule =>
      rw [perform]
      unfold performRename
      dsimp only
      split <;> split <;> exact ⟨rfl, rfl⟩
  | addEffect base effect =>
      rw [perform]
      unfold performEffect
      split
      · exact ⟨rfl, rfl⟩
      · dsimp only
        split
        · exact ⟨rfl, rfl⟩
        · split <;> exact ⟨rfl, rfl⟩

/- An effect is put on a descriptor with entities only. -/
theorem entities?_of_apply
    {effect : VisualEffect}
    {doc result : Value}
    (hApply : effect.apply doc = .ok result) :
    VisualEffect.entities? doc ≠ none := by
  intro hNone
  exact VisualEffect.apply_ne_ok hNone hApply

/-
  A descriptor that is staged and takes an effect is one that
  was staged before, or is read from its file just now.
-/
theorem Describes.loadAsset
    (hDescribes : w.Describes disk)
    {base name : String}
    {a : StagedAsset}
    {effect : VisualEffect}
    {result : Value}
    (hAsset : w.catalog.asset? base = some name)
    (hLoad :
      loadAsset disk w (DataFile.asset w.dir name) = .ok a)
    (hApply : effect.apply a.doc = .ok result) :
    ∃ base name doc,
      w.catalog.asset? base = some name ∧
        a.path = DataFile.asset w.dir name ∧
        DataFile.readJson Document.value disk a.path =
          .ok doc ∧
        VisualEffect.entities? doc ≠ none := by
  rcases loadAsset_eq_ok hLoad with
    hStaged | ⟨_, hPath, hRead⟩
  · exact hDescribes _ (Assoc.mem_of_find?_eq_some hStaged)
  · rw [hPath]
    exact
      ⟨base, name, _, hAsset, rfl, hRead,
        entities?_of_apply hApply⟩

/- Staging an edit keeps descriptors read from files. -/
theorem Describes.perform
    (hDescribes : w.Describes disk)
    {edit : Edit}
    (hPerform : perform disk w edit = (next, none)) :
    next.Describes disk := by
  cases edit with
  | rename base rule =>
      rw [Writer.perform] at hPerform
      have hAssets := assets_performRename disk w base rule
      have hTarget := sameTarget_perform disk w (.rename base rule)
      rw [Writer.perform] at hTarget
      rw [hPerform] at hAssets hTarget
      unfold Describes
      rw [hAssets, hTarget.dir, hTarget.catalog]
      exact hDescribes
  | addEffect base effect =>
      rw [Writer.perform] at hPerform
      rcases performEffect_cases disk w base effect with
        ⟨_, hUse⟩ | ⟨name, path, hAsset, rfl, hUse⟩
      · cases hPerform.symm.trans hUse
      · rcases hUse with
          ⟨_, _, hUse⟩ | ⟨_, _, _, _, hUse⟩ |
            ⟨a, doc, hLoad, hApply, hUse⟩
        · cases hPerform.symm.trans hUse
        · cases hPerform.symm.trans hUse
        · cases hPerform.symm.trans hUse
          intro entry hMem
          rcases Assoc.eq_or_mem_of_mem_set hMem with
            rfl | hOld
          · have hStaged :=
              hDescribes.loadAsset hAsset hLoad hApply
            exact hStaged
          · exact hDescribes entry hOld

/- Staging edits keeps descriptors read from files. -/
theorem Describes.performAll
    (hDescribes : w.Describes disk)
    {edits : List Edit}
    (hPerform : performAll disk w edits = (next, none)) :
    next.Describes disk ∧ SameTarget w next := by
  induction edits generalizing w with
  | nil =>
      cases hPerform
      exact ⟨hDescribes, rfl, rfl⟩
  | cons edit edits ih =>
      have hTarget := sameTarget_perform disk w edit
      unfold Writer.performAll at hPerform
      cases hFirst : Writer.perform disk w edit with
      | mk middle failure =>
          rw [hFirst] at hPerform hTarget
          cases failure with
          | some e => cases hPerform
          | none =>
              rcases ih (hDescribes.perform hFirst) hPerform with
                ⟨hNext, hRest⟩
              exact
                ⟨hNext, hRest.dir.trans hTarget.dir,
                  hRest.catalog.trans hTarget.catalog⟩

------------------------------------------------------------
-- Staged Files
------------------------------------------------------------

/- A staged file is a staged table or a staged descriptor. -/
theorem mem_files_iff
    {entry : Path × Value} :
    entry ∈ w.files ↔
      (∃ rune rows,
        w.staging.table rune = some rows ∧
          entry =
            (DataFile.stringTable w.dir rune, .array rows)) ∨
        ∃ staged ∈ w.staging.assets,
          entry = (staged.2.path, staged.2.doc) := by
  have hTable :
      ∀ path rows,
        entry ∈ tableFile path rows ↔
          ∃ values,
            rows = some values ∧
              entry = (path, .array values) := by
    intro path rows
    cases rows <;> simp [tableFile]
  have hKinds :
      (∃ rune rows,
        w.staging.table rune = some rows ∧
          entry =
            (DataFile.stringTable w.dir rune,
              .array rows)) ↔
        (∃ rows,
          w.staging.names = some rows ∧
            entry = (DataFile.itemNames w.dir, .array rows)) ∨
          ∃ rows,
            w.staging.runes = some rows ∧
              entry =
                (DataFile.itemRunes w.dir, .array rows) := by
    simp only [Bool.exists_bool, Staging.table,
      DataFile.stringTable, Bool.false_eq_true, if_false,
      if_true]
  rw [files, List.mem_append, List.mem_append, List.mem_map,
    hTable, hTable, ← hKinds]
  simp only [eq_comm (a := entry)]

end Writer

end LootFilter
