import LootFilter.CommandLine
import LootFilter.Proofs.Disk.Same

/-
  Runs on trees that cannot be told apart.

  A run reads files, stages changes in memory and writes files
  at the end.  So what it does, reports and leaves behind is
  the same for trees that are the same.

  Main declarations:
    * `Catalog.load_eq`
    * `Writer.performAll_eq`
    * `CommandLine.SameRun`
    * `CommandLine.sameRun_proceed`
-/

namespace LootFilter

open Disk (Same)

variable {a b : Disk}

------------------------------------------------------------
-- Loading
------------------------------------------------------------

/- The same text is read. -/
theorem DataFile.readText_eq
    (h : Same a b)
    (p : Path) :
    readText a p = readText b p := by
  rw [readText, readText, h.read_eq]

/- The same document is read. -/
theorem DataFile.readJson_eq
    (h : Same a b)
    {α : Type}
    (read : Json.Document → Except Json.Fault α)
    (p : Path) :
    readJson read a p = readJson read b p := by
  rw [readJson, readJson, readText_eq h]

/- The same catalog is loaded. -/
theorem Catalog.load_eq
    (h : Same a b)
    (dir : Path) :
    load a dir = load b dir := by
  have hJson := @DataFile.readJson_eq a b h
  simp only [load, loadEntries, loadJson, loadItems, loadIfFile,
    hJson, h.read_eq, h.hasFile_eq]

/- The same rows are left out. -/
theorem Catalog.codelessRows_eq
    (h : Same a b)
    (dir : Path) :
    codelessRows a dir = codelessRows b dir := by
  have hJson := @DataFile.readJson_eq a b h
  simp only [codelessRows, loadEntries, loadJson, loadItems,
    hJson, h.read_eq]

------------------------------------------------------------
-- Staging
------------------------------------------------------------

namespace Writer

/- An edit is staged in the same way. -/
theorem perform_eq
    (h : Same a b)
    (w : Writer)
    (edit : Edit) :
    perform a w edit = perform b w edit := by
  have hJson := @DataFile.readJson_eq a b h
  cases edit with
  | rename base rule =>
      simp only [perform, performRename, loadTable, readJson,
        hJson]
  | addEffect base effect =>
      simp only [perform, performEffect, loadAsset, readJson,
        hJson]

/- Edits are staged in the same way. -/
theorem performAll_eq
    (h : Same a b)
    (w : Writer)
    (edits : List Edit) :
    performAll a w edits = performAll b w edits := by
  induction edits generalizing w with
  | nil => rfl
  | cons edit edits ih =>
      rw [performAll, performAll, perform_eq h]
      simp only [ih]

end Writer

------------------------------------------------------------
-- Running
------------------------------------------------------------

namespace CommandLine

/- Whether two runs end alike, with the same reports. -/
structure SameRun (r s : Run) : Prop where
  disk : Same r.disk s.disk
  events : r.events = s.events
  failure : r.failure = s.failure

/- Runs that end alike do so after the same reports. -/
theorem SameRun.after
    {r s : Run}
    (h : SameRun r s)
    (events : List Event) :
    SameRun (r.after events) (s.after events) where
  disk := h.disk
  events := congrArg (events ++ ·) h.events
  failure := h.failure

/- Applying a filter ends alike. -/
theorem sameRun_applyFilter
    (h : Same a b)
    (device : Device)
    (dir : Path)
    (catalog : Catalog)
    (filter : Filter) :
    SameRun (applyFilter device a dir catalog filter)
      (applyFilter device b dir catalog filter) := by
  unfold applyFilter Writer.writeAll
  rw [Writer.performAll_eq h]
  dsimp only
  split
  · exact ⟨h, rfl, rfl⟩
  · have hFinish :=
      h.writeFiles device
        ((Writer.new dir catalog).performAll b
          (filter.rules.flatMap Rule.edits)).1.files
    unfold Writer.finish
    rw [hFinish.failure, hFinish.done]
    split <;> exact ⟨hFinish.disk, rfl, rfl⟩

/- Using a filter ends alike. -/
theorem sameRun_useFilter
    (h : Same a b)
    (device : Device)
    (options : Options)
    (catalog : Catalog) :
    SameRun (useFilter device a options catalog)
      (useFilter device b options catalog) := by
  unfold useFilter
  dsimp only
  rw [DataFile.readText_eq h]
  split
  · exact ⟨h, rfl, rfl⟩
  · split
    · exact ⟨h, rfl, rfl⟩
    · split
      · exact ⟨h, rfl, rfl⟩
      · exact (sameRun_applyFilter h _ _ _ _).after _

/- All that follows the restoring ends alike. -/
theorem sameRun_proceed
    (h : Same a b)
    (device : Device)
    (options : Options) :
    SameRun (proceed device a options)
      (proceed device b options) := by
  unfold proceed
  split
  · exact ⟨h, rfl, rfl⟩
  · unfold loadAndUse
    dsimp only
    rw [Catalog.load_eq h, Catalog.codelessRows_eq h]
    split
    · exact ⟨h, rfl, rfl⟩
    · exact (sameRun_useFilter h _ _ _).after _

end CommandLine

end LootFilter
