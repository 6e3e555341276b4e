import LootFilter.Proofs.Backup.Written
import LootFilter.Proofs.Writer.Calls

/-
  No effect is lost between the rules and the files.

  A writer that is asked for rules, of which some may fail,
  holds the descriptors that their uses stage.  A rule that
  fails keeps what its effects made before the failure.  When
  the writer finishes, each descriptor is written once, after
  the tables and in the order of first use.

  Main declarations:
    * `Backup.WrittenInTurn`
    * `Writer.Finishes`
    * `Writer.KeepsEffects`
    * `Writer.descriptors_writeEach`
-/

namespace LootFilter

open Json (Document Value)

------------------------------------------------------------
-- Finishing
------------------------------------------------------------

/-
  Whether documents are written to a tree, one after the
  other, each after its copy was seen to.
-/
inductive Backup.WrittenInTurn :
    Device → Disk → List (Path × Value) → Disk → Prop
| nil (device : Device) (d : Disk) :
    WrittenInTurn device d [] d
| cons
    {device : Device}
    {d kept written last : Disk}
    {p : Path}
    {v : Value}
    {rest : List (Path × Value)}
    (hKeep : KeepStep (device.copying 0 p) d p (kept, none))
    (hWrite :
      Disk.WriteStep (device.writing 0 p) kept p
        (DataFile.encodeJson v) (written, none))
    (hRest : WrittenInTurn device.next written rest last) :
    WrittenInTurn device d ((p, v) :: rest) last

/- Writing that succeeds writes each document in turn. -/
theorem Backup.writeFiles_eq_ok
    {device : Device}
    {d : Disk}
    {staged : List (Path × Value)}
    (hDone : (writeFiles device d staged).failure = none) :
    (writeFiles device d staged).result =
        .ok (staged.map Prod.fst) ∧
      WrittenInTurn device d staged
        (writeFiles device d staged).disk := by
  have hResult :
      (writeFiles device d staged).done =
          staged.map Prod.fst ∧
        WrittenInTurn device d staged
          (writeFiles device d staged).disk := by
    induction staged generalizing device d with
    | nil => exact ⟨rfl, .nil device d⟩
    | cons entry rest ih =>
        obtain ⟨p, v⟩ := entry
        rcases writeFiles_cons device d p v rest with
          ⟨_, _, _, hRun⟩ | ⟨next, r, hStep, rfl, hRun⟩
        · rw [hRun] at hDone
          cases hDone
        · rw [hRun] at hDone ⊢
          rcases ih hDone with ⟨hPaths, hRest⟩
          cases hStep with
          | done hKeep hWrite =>
              exact
                ⟨congrArg (p :: ·) hPaths,
                  .cons hKeep hWrite hRest⟩
  unfold Progress.result
  rw [hDone, hResult.1]
  exact ⟨rfl, hResult.2⟩

namespace Writer

/-
  What a writer does when it finishes: it lists and writes the
  staged tables and then the staged descriptors.  What no
  other path leads to holds what was staged for it.
-/
structure Finishes
    (dir : Path)
    (w : Writer)
    (device : Device)
    (disk : Disk) : Prop where
  listed :
    (w.finish device disk).result =
      .ok
        ((w.staging.names.toList.map fun _ =>
            DataFile.itemNames dir) ++
          (w.staging.runes.toList.map fun _ =>
            DataFile.itemRunes dir) ++
          w.staging.assets.map (·.2.path))
  written :
    Backup.WrittenInTurn device disk
      ((w.staging.names.toList.map fun rows =>
          (DataFile.itemNames dir, .array rows)) ++
        (w.staging.runes.toList.map fun rows =>
          (DataFile.itemRunes dir, .array rows)) ++
        w.staging.assets.map fun entry =>
          (entry.2.path, entry.2.doc))
      (w.finish device disk).disk
  placed :
    ∀ entry ∈ w.staging.assets, ∀ l,
      disk.locate entry.2.path = .ok l →
        (∀ other ∈ w.files,
          other = (entry.2.path, entry.2.doc) ∨
            Backup.ApartFrom disk other.1 l) →
          (w.finish device disk).disk.node? l =
            some (.file (DataFile.encodeJson entry.2.doc))

/- A writer that finishes without failure does that. -/
theorem finishes_of_finish
    {device : Device}
    {disk : Disk}
    {w : Writer}
    (hNamed : w.NamesDocuments)
    (hDone : (w.finish device disk).failure = none) :
    Finishes w.dir w device disk := by
  have hTable :
      ∀ path rows,
        tableFile path rows =
          rows.toList.map fun values =>
            (path, Value.array values) := by
    intro path rows
    cases rows <;> rfl
  have hFiles :
      w.files =
        (w.staging.names.toList.map fun rows =>
            (DataFile.itemNames w.dir, Value.array rows)) ++
          (w.staging.runes.toList.map fun rows =>
            (DataFile.itemRunes w.dir, Value.array rows)) ++
          w.staging.assets.map fun entry =>
            (entry.2.path, entry.2.doc) := by
    rw [files, hTable, hTable]
  rcases Backup.writeFiles_eq_ok hDone with ⟨hResult, hTurn⟩
  refine ⟨?_, hFiles ▸ hTurn, ?_⟩
  · unfold finish
    rw [hResult, hFiles]
    simp [Function.comp_def]
  · intro entry hMem l hLocate hApart
    have hStaged : (entry.2.path, entry.2.doc) ∈ w.files :=
      mem_files_iff.mpr (Or.inr ⟨entry, hMem, rfl⟩)
    exact
      Backup.node?_writeFiles_of_mem
        (fun other hOther =>
          isDocument_of_mem_files hNamed hOther)
        hStaged hLocate hApart hDone

/-
  What a writer keeps of the effects that it was asked for.
  One more call that fails keeps what they made, and what its
  own effects made before the failure.
-/
structure KeepsEffects
    (dir : Path)
    (catalog : Catalog)
    (uses : List Use)
    (w : Writer) : Prop where
  staged : StagedBy uses w.staging.assets
  distinct :
    (w.staging.assets.map fun entry =>
      entry.2.path.components).Nodup
  failing :
    ∀ disk rule next e,
      w.write disk rule = (next, some e) →
        ∃ more,
          Asks disk dir catalog rule next (some e) more ∧
            StagedBy (uses ++ more) next.staging.assets
  finishing :
    ∀ device disk,
      (w.finish device disk).failure = none →
        Finishes dir w device disk

/-
  A new writer keeps all effects of the rules that it is to
  stage, on whatever trees, and whichever calls fail.
-/
theorem descriptors_writeEach
    (dir : Path)
    (catalog : Catalog)
    (calls : List (Disk × Rule)) :
    ∃ uses,
      Makes dir catalog (new dir catalog) calls uses ∧
        KeepsEffects dir catalog uses
          ((new dir catalog).writeEach calls) := by
  have hStaged :=
    StagedBy.writeEach (w := new dir catalog) .nil calls
  have hNamed :=
    (namesDocuments_new dir catalog).writeEach calls
  have hTarget := sameTarget_writeEach (new dir catalog) calls
  have hDir : ((new dir catalog).writeEach calls).dir = dir :=
    hTarget.dir
  have hCatalog :
      ((new dir catalog).writeEach calls).catalog = catalog :=
    hTarget.catalog
  rw [List.nil_append] at hStaged
  refine ⟨_, makes_usesEach (new dir catalog) calls, ?_⟩
  generalize (new dir catalog).writeEach calls = w
    at hStaged hNamed hDir hCatalog ⊢
  subst hDir hCatalog
  refine
    ⟨hStaged, hStaged.nodup_components, ?_,
      fun device disk => finishes_of_finish hNamed⟩
  intro disk rule next e hWrite
  have hNext := hStaged.performAll disk rule.edits
  rw [write] at hWrite
  rw [hWrite] at hNext
  exact ⟨_, asks_of_write hWrite, hNext⟩

end Writer

end LootFilter
