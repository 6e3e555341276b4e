import LootFilter.Proofs.Backup.Places
import LootFilter.Proofs.Backup.Restore
import LootFilter.Proofs.Backup.Written
import LootFilter.Proofs.Writer.Uses

/-
  Which places a writer touches.

  The tables are below a root of the data directory, and so is
  the descriptor of an asset whose name is relative and never
  goes up.  The index of assets may hold other names, and then
  a writer touches what they lead to, and next to it leaves a
  copy that restoring does not find.  All else is spared.

  Main declarations:
    * `Writer.NamedBy`
    * `Writer.MayTouch`
    * `Writer.TouchesOnly`
    * `Writer.touched_finish`
-/

namespace LootFilter

open Backup (ApartFrom Spares UnderRoot copyPlace)
open Json (Document Value)

------------------------------------------------------------
-- Places of Data Files
------------------------------------------------------------

namespace DataFile

variable {name : String}

/- The tables of names are below a root. -/
theorem underRoot_place_stringTable
    (d : Disk)
    (dir : Path)
    (rune : Bool) :
    UnderRoot (d.place dir) (d.place (stringTable dir rune)) := by
  have hTable :
      ∃ last,
        stringTable dir rune =
            dir.below ["local", "lng", "strings", last] ∧
          Disk.IsPlace ["local", "lng", "strings", last] := by
    cases rune with
    | false => exact ⟨"item-names.json", rfl, by decide⟩
    | true => exact ⟨"item-runes.json", rfl, by decide⟩
  rcases hTable with ⟨last, hPath, hNames⟩
  rw [hPath, Disk.place_below d dir hNames (by simp)]
  exact
    ⟨"local", by decide, ["lng", "strings", last], by simp,
      by simp⟩

/- So is the descriptor of an asset, if its name is inside. -/
theorem underRoot_place_asset
    (hInside : IsInside name)
    (d : Disk)
    (dir : Path) :
    UnderRoot (d.place dir) (d.place (asset dir name)) := by
  rcases exists_place_asset hInside d dir with
    ⟨names, last, hPlace⟩
  rw [hPlace]
  exact
    ⟨"hd", by decide, "items" :: (names ++ [last ++ ".json"]),
      by simp, by simp⟩

end DataFile

------------------------------------------------------------
-- Touched Places
------------------------------------------------------------

namespace Writer

variable {first disk last : Disk} {dir : Path}
variable {catalog : Catalog} {rules : List Rule}
variable {name : String} {x : Location}

/-
  Whether the index of assets gives a name to a base type that
  rules put effects on.
-/
def NamedBy
    (first : Disk)
    (dir : Path)
    (rules : List Rule)
    (name : String) : Prop :=
  ∃ rule ∈ rules,
    rule.vfx ≠ [] ∧
      ∃ base ∈ rule.targets,
        ∃ entries,
          DataFile.readJson assetIndexOfDocument first
              (DataFile.assetIndex dir) = .ok entries ∧
            (base, name) ∈ entries

/-
  Whether a place is below a root, or is one that such a name
  leads to outside of the roots, or is for a copy next to it.
-/
def MayTouch
    (first last : Disk)
    (dir : Path)
    (rules : List Rule)
    (x : Location) : Prop :=
  UnderRoot (last.place dir) x ∨
    ∃ name,
      NamedBy first dir rules name ∧
        ¬ DataFile.IsInside name ∧
        ¬ UnderRoot (last.place dir)
          (last.place (DataFile.asset dir name)) ∧
        (x = last.place (DataFile.asset dir name) ∨
          x = copyPlace (last.place (DataFile.asset dir name)))

/- What such a name leads to may be touched, with its copy. -/
theorem mayTouch_asset
    (hNamed : NamedBy first dir rules name) :
    MayTouch first last dir rules
        (last.place (DataFile.asset dir name)) ∧
      MayTouch first last dir rules
        (copyPlace (last.place (DataFile.asset dir name))) := by
  by_cases hUnder :
      UnderRoot (last.place dir)
        (last.place (DataFile.asset dir name))
  · exact
      ⟨Or.inl hUnder,
        Or.inl (Backup.underRoot_copyPlace_iff.mpr hUnder)⟩
  · have hOutside : ¬ DataFile.IsInside name :=
      fun hInside =>
        hUnder (DataFile.underRoot_place_asset hInside last dir)
    exact
      ⟨Or.inr ⟨name, hNamed, hOutside, hUnder, Or.inl rfl⟩,
        Or.inr ⟨name, hNamed, hOutside, hUnder, Or.inr rfl⟩⟩

/-
  A staged file is that of a table, or the descriptor of an
  asset that the rules put effects on.
-/
theorem path_of_mem_files
    (hLoad : Catalog.load first dir = .ok catalog)
    {entry : Path × Value}
    (hMem :
      entry ∈
        ((new dir catalog).writeAll disk rules).1.files) :
    (∃ rune, entry.1 = DataFile.stringTable dir rune) ∨
      ∃ name,
        NamedBy first dir rules name ∧
          entry.1 = DataFile.asset dir name := by
  have hTarget :=
    sameTarget_performAll disk (new dir catalog)
      (rules.flatMap Rule.edits)
  have hStaged :=
    stagedBy_performAll_new disk dir catalog
      (rules.flatMap Rule.edits)
  rcases mem_files_iff.mp hMem with
    ⟨rune, rows, _, rfl⟩ | ⟨⟨key, a⟩, hAsset, rfl⟩
  · left
    refine ⟨rune, ?_⟩
    unfold writeAll
    rw [hTarget.dir]
    rfl
  · right
    rcases hStaged.exists_of_mem hAsset with
      ⟨u, hUse, _, hPath⟩
    rcases exists_of_mem_usesAll hUse with
      ⟨base, name, hEdit, hName, hOwn⟩
    rcases List.mem_flatMap.mp hEdit with
      ⟨rule, hRule, hIn⟩
    rcases addEffect_mem_edits_iff.mp hIn with
      ⟨hBase, hEffect⟩
    rcases Catalog.exists_entries_of_asset? hLoad hName with
      ⟨entries, hIndex, hEntry⟩
    exact
      ⟨name,
        ⟨rule, hRule, List.ne_nil_of_mem hEffect, base, hBase,
          entries, hIndex, hEntry⟩,
        hPath.trans hOwn⟩

/-
  Whether a writer that finishes touches no other places, and
  none outside of the roots if all names stay inside.
-/
structure TouchesOnly
    (first last : Disk)
    (dir : Path)
    (rules : List Rule)
    (w : Writer) : Prop where
  staged :
    ∀ entry ∈ w.files, ∀ l,
      last.locate entry.1 = .ok l →
        MayTouch first last dir rules l ∧
          MayTouch first last dir rules (copyPlace l)
  spared :
    ∀ device x,
      ¬ MayTouch first last dir rules x →
        (w.finish device last).disk.node? x = last.node? x
  inside :
    (∀ name,
        NamedBy first dir rules name →
          DataFile.IsInside name) →
      ∀ device x,
        ¬ UnderRoot (last.place dir) x →
          (w.finish device last).disk.node? x = last.node? x

/-
  A writer for a loaded catalog touches what is below the
  roots, and what names of assets lead to outside of them,
  even if the staging or the finishing fails.
-/
theorem touched_finish
    {first : Disk}
    {dir : Path}
    {catalog : Catalog}
    (hLoad : Catalog.load first dir = .ok catalog)
    (disk last : Disk)
    (rules : List Rule) :
    TouchesOnly first last dir rules
      ((new dir catalog).writeAll disk rules).1 := by
  have hNamed :
      ((new dir catalog).writeAll disk rules).1.NamesDocuments :=
    (namesDocuments_new dir catalog).performAll disk _
  have hStaged :
      ∀ entry ∈ ((new dir catalog).writeAll disk rules).1.files,
        ∀ l,
          last.locate entry.1 = .ok l →
            MayTouch first last dir rules l ∧
              MayTouch first last dir rules (copyPlace l) := by
    intro entry hMem l hLocate
    cases Disk.eq_place_of_locate hLocate
    rcases path_of_mem_files hLoad hMem with
      ⟨rune, hPath⟩ | ⟨name, hName, hPath⟩
    · have hUnder :=
        DataFile.underRoot_place_stringTable last dir rune
      rw [hPath]
      exact
        ⟨Or.inl hUnder,
          Or.inl (Backup.underRoot_copyPlace_iff.mpr hUnder)⟩
    · rw [hPath]
      exact mayTouch_asset hName
  have hSpared :
      ∀ device x,
        ¬ MayTouch first last dir rules x →
          (((new dir catalog).writeAll disk rules).1.finish
            device last).disk.node? x = last.node? x := by
    intro device x hApart
    apply
      (Backup.spares_writeFiles device last
        fun entry hMem =>
          isDocument_of_mem_files hNamed hMem).node
    intro entry hMem l hLocate
    rcases hStaged entry hMem l hLocate with ⟨hPlace, hCopy⟩
    constructor
    · rintro rfl
      exact hApart hPlace
    · rintro rfl
      exact hApart hCopy
  refine ⟨hStaged, hSpared, ?_⟩
  intro hInside device x hOutside
  apply hSpared
  rintro (hUnder | ⟨name, hName, hNot, _⟩)
  · exact hOutside hUnder
  · exact hNot (hInside name hName)

/- An index of assets with a name that goes up. -/
def strayIndex : String :=
  "[\x7b\"cap\":\x7b\"asset\":\"../../x\"\x7d\x7d]"

/- What stands where the name leads to. -/
def strayText : String :=
  "\x7b\"entities\":[]\x7d"

/- A data directory with both. -/
def strayTree : Disk :=
  ⟨[(["data"], .folder), (["data", "local"], .folder),
    (["data", "local", "lng"], .folder),
    (["data", "local", "lng", "strings"], .folder),
    (["data", "local", "lng", "strings", "item-names.json"],
      .file "[]".toUTF8),
    (["data", "local", "lng", "strings", "item-runes.json"],
      .file "[]".toUTF8),
    (["data", "global"], .folder),
    (["data", "global", "excel"], .folder),
    (["data", "global", "excel", "armor.txt"],
      .file "name\tcode\n".toUTF8),
    (["data", "hd"], .folder),
    (["data", "hd", "items"], .folder),
    (["data", "hd", "items", "items.json"],
      .file strayIndex.toUTF8),
    (["data", "x.json"], .file strayText.toUTF8)], []⟩

/- The catalog of the directory. -/
def strayCatalog : Catalog :=
  { names := []
    runes := []
    classes := [(.rune, BaseSet.ofList runeCodes)]
    assets := [("cap", "../../x")] }

/- It is loaded from the directory. -/
theorem load_strayTree :
    Catalog.load strayTree ⟨["data"]⟩ = .ok strayCatalog := by
  decide +kernel

/- A rule that puts an effect on the base type of the name. -/
def strayRules : List Rule :=
  [ ⟨1, .showItem, some (BaseSet.empty.insert "cap"), none,
      [.glitter]⟩ ]

/- The writer of the rule. -/
def strayWriter : Writer :=
  ((new ⟨["data"]⟩ strayCatalog).writeAll strayTree
    strayRules).1

/- Its file is the one that the name leads to. -/
theorem files_strayWriter :
    strayWriter.files.map (strayTree.locate ·.1) =
      [.ok ["data", "x.json"]] := by
  decide +kernel

/- It touches no other. -/
theorem touched_finish_stray :
    Catalog.load strayTree ⟨["data"]⟩ = .ok strayCatalog ∧
      TouchesOnly strayTree strayTree ⟨["data"]⟩ strayRules
        strayWriter ∧
      strayWriter.files.map (strayTree.locate ·.1) =
        [.ok ["data", "x.json"]] :=
  ⟨load_strayTree,
    touched_finish load_strayTree strayTree strayTree strayRules,
    files_strayWriter⟩

/- The tree when the writer has finished. -/
def strayResult : Disk :=
  (strayWriter.finish .sound strayTree).disk

/- Writing the file succeeds. -/
theorem failure_strayWriter :
    (strayWriter.finish .sound strayTree).failure = none := by
  decide +kernel

/- A written file starts with a byte order mark. -/
theorem encodeJson_ne
    {s : String}
    (hMark : s.toList.head? ≠ some DataFile.byteOrderMark)
    (v : Value) :
    DataFile.encodeJson v ≠ s.toUTF8 := by
  intro hBytes
  unfold DataFile.encodeJson at hBytes
  have hText := String.toByteArray_inj.mp hBytes
  rw [← hText] at hMark
  simp at hMark

/- The file was written over. -/
theorem node?_strayResult :
    strayResult.node? ["data", "x.json"] ≠
      strayTree.node? ["data", "x.json"] := by
  rcases List.map_eq_singleton_iff.mp files_strayWriter with
    ⟨entry, hFiles, hLocate⟩
  have hNamed : strayWriter.NamesDocuments :=
    (namesDocuments_new ⟨["data"]⟩ strayCatalog).performAll
      strayTree _
  have hAfter :
      strayResult.node? ["data", "x.json"] =
        some (.file (DataFile.encodeJson entry.2)) :=
    Backup.node?_writeFiles_of_mem
      (fun other hMem => isDocument_of_mem_files hNamed hMem)
      (p := entry.1) (v := entry.2) (by simp [hFiles]) hLocate
      (by simp [hFiles]) failure_strayWriter
  have hBefore :
      strayTree.node? ["data", "x.json"] =
        some (.file strayText.toUTF8) := by
    decide +kernel
  rw [hAfter, hBefore]
  intro hSame
  exact
    encodeJson_ne (by decide) entry.2
      (Node.file.inj (Option.some.inj hSame))

/- The file is below no root. -/
theorem not_underRoot_stray :
    ¬ UnderRoot ["data"] ["data", "x.json"] := by
  rintro ⟨root, _, names, hNames, hEq⟩
  simp [hNames] at hEq

/- So its copy is not found. -/
theorem restoreAll_strayResult :
    Backup.restoreAll strayResult ⟨["data"]⟩ =
      ⟨strayResult, [], none⟩ := by
  have hTree : strayResult.WellFormed :=
    ⟨by decide +kernel, by decide +kernel, by decide +kernel,
      by decide +kernel⟩
  have hCopies :
      ∀ l ∈ Assoc.keys strayResult.nodes,
        Backup.endsInBackup l = true →
          l = copyPlace ["data", "x.json"] := by
    decide +kernel
  have hPristine : Backup.Pristine strayResult ["data"] := by
    intro parent name hUnder hNode
    rcases Option.ne_none_iff_exists'.mp hNode with ⟨n, hSome⟩
    have hKey := Disk.mem_keys_of_node? (by simp) hSome
    rw [← Bool.not_eq_true]
    intro hName
    -- The only copy is the one next to the file.
    have hCopy := hCopies _ hKey (by simpa [Backup.endsInBackup])
    rw [hCopy, Backup.underRoot_copyPlace_iff] at hUnder
    exact not_underRoot_stray hUnder
  have hReaches :
      Backup.Reaches strayResult ["data"] ⟨["data"]⟩ :=
    Backup.reaches_of_keys (fun root => ⟨["data", root]⟩)
      (by decide +kernel) (by decide +kernel)
  exact
    Backup.restoreAll_of_pristine hTree hPristine
      (by decide +kernel) hReaches

/-
  A writer can touch what is below no root.  Staging and
  finishing succeed, and so does restoring, which leaves the
  file as the writer made it.
-/
theorem touched_finish_outside :
    Catalog.load strayTree ⟨["data"]⟩ = .ok strayCatalog ∧
      (new ⟨["data"]⟩ strayCatalog).writeAll strayTree
          strayRules = (strayWriter, none) ∧
      (strayWriter.finish .sound strayTree).failure = none ∧
      strayTree.locate ⟨["data"]⟩ = .ok ["data"] ∧
      ¬ UnderRoot ["data"] ["data", "x.json"] ∧
      (strayWriter.finish .sound strayTree).disk.node?
          ["data", "x.json"] ≠
        strayTree.node? ["data", "x.json"] ∧
      Backup.restoreAll
          (strayWriter.finish .sound strayTree).disk
          ⟨["data"]⟩ =
        ⟨(strayWriter.finish .sound strayTree).disk, [], none⟩ :=
  ⟨load_strayTree, Prod.ext rfl (by decide +kernel),
    failure_strayWriter, by decide, not_underRoot_stray,
    node?_strayResult, restoreAll_strayResult⟩

end Writer

end LootFilter
