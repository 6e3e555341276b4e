import LootFilter.Proofs.Fields
import LootFilter.Proofs.Outcome
import LootFilter.Writer

/-
  The paths that a writer writes to.

  Whatever the directory and the names of the assets are, the
  last name of each path ends like the name of a document.

  Main declarations:
    * `Path.IsDocument`
    * `DataFile.asset_isDocument`
    * `Writer.NamesDocuments`
    * `Writer.performAll_preserves`
    * `Writer.isDocument_of_mem_files`
-/

namespace LootFilter

/- A path whose last name is that of a document. -/
def Path.IsDocument (p : Path) : Prop :=
  ∃ segments stem, p.segments = segments ++ [stem ++ ".json"]

------------------------------------------------------------
-- Paths of Data Files
------------------------------------------------------------

/- A path without slashes in its segments is that of its text. -/
theorem Path.ofText_text
    {p : Path}
    (hSome : p.segments ≠ [])
    (hSlash : ∀ segment ∈ p.segments, '/' ∉ segment.toList) :
    ofText p.text = p := by
  have hFields :
      ∀ field ∈ p.segments.map String.toList, '/' ∉ field := by
    simpa using hSlash
  unfold ofText text
  rw [String.toList_ofList,
    Text.splitAt_joinWith (by simpa using hSome) hFields,
    List.map_map]
  simp [Function.comp_def]

/- An ending without a slash joins the last name of a path. -/
theorem Path.segments_ofText_append
    (name : String)
    {ending : String}
    (hEnding : '/' ∉ ending.toList) :
    ∃ front last,
      (ofText name).segments = front ++ [last] ∧
        (ofText (name ++ ending)).segments =
          front ++ [last ++ ending] := by
  rcases Text.splitAt_append name.toList ending.toList
      hEnding with
    ⟨fields, last, hSplit, hJoined⟩
  refine
    ⟨fields.map String.ofList, String.ofList last, ?_, ?_⟩
  · simp [ofText, hSplit]
  · simp only [ofText, String.toList_append, hJoined,
      List.map_append, List.map_cons, List.map_nil,
      String.ofList_append, String.ofList_toList]

namespace DataFile

/- The table of item names is a document. -/
theorem itemNames_isDocument (dir : Path) :
    (itemNames dir).IsDocument := by
  refine
    ⟨dir.stem ++ ["local", "lng", "strings"],
      "item-names", ?_⟩
  simp [itemNames, Path.below, Path.join, Path.IsAbsolute]

/- The table of rune names is a document. -/
theorem itemRunes_isDocument (dir : Path) :
    (itemRunes dir).IsDocument := by
  refine
    ⟨dir.stem ++ ["local", "lng", "strings"],
      "item-runes", ?_⟩
  simp [itemRunes, Path.below, Path.join, Path.IsAbsolute]

/- The descriptor of an asset is a document. -/
theorem asset_isDocument
    (dir : Path)
    (name : String) :
    (asset dir name).IsDocument := by
  rcases Path.segments_ofText_append name
      (show '/' ∉ ".json".toList by decide) with
    ⟨front, last, _, hSegments⟩
  unfold asset Path.join
  split
  · exact ⟨front, last, hSegments⟩
  · refine
      ⟨(dir.below ["hd", "items"]).stem ++ front, last, ?_⟩
    simp [hSegments]

end DataFile

------------------------------------------------------------
-- Staged Paths
------------------------------------------------------------

namespace Writer

/- Every staged descriptor is named by a document's path. -/
def NamesDocuments (w : Writer) : Prop :=
  ∀ entry ∈ w.staging.assets, entry.2.path.IsDocument

variable {disk : Disk} {w : Writer}

/- Nothing is staged in a new writer. -/
theorem namesDocuments_new
    (dir : Path)
    (catalog : Catalog) :
    (new dir catalog).NamesDocuments := by
  intro entry hMem
  cases hMem

/- Staging a name leaves the staged descriptors alone. -/
theorem assets_performRename
    (disk : Disk)
    (w : Writer)
    (base : String)
    (rule : Rule) :
    (performRename disk w base rule).1.staging.assets =
      w.staging.assets := by
  unfold performRename
  split <;> dsimp only <;> split <;> rfl

/- A descriptor is staged under a document's path. -/
theorem isDocument_loadAsset
    (hStaged : w.NamesDocuments)
    {path : Path}
    {a : StagedAsset}
    (hPath : path.IsDocument)
    (hLoad : loadAsset disk w path = .ok a) :
    a.path.IsDocument := by
  unfold loadAsset at hLoad
  split at hLoad
  · rename_i hFound
    cases hLoad
    exact hStaged _ (Assoc.mem_of_find?_eq_some hFound)
  · rcases bind_eq_ok_iff.mp hLoad with ⟨doc, _, hDone⟩
    cases hDone
    exact hPath

/- Staging a descriptor under a document's path is safe. -/
theorem NamesDocuments.stageAsset
    (hStaged : w.NamesDocuments)
    (key : List String)
    (a : StagedAsset)
    (hPath : a.path.IsDocument) :
    (w.stageAsset key a).NamesDocuments := by
  intro entry hMem
  rcases Assoc.eq_or_mem_of_mem_set hMem with hNew | hOld
  · rw [hNew]
    exact hPath
  · exact hStaged entry hOld

/- Staging an edit uses paths of documents only. -/
theorem NamesDocuments.perform
    (hStaged : w.NamesDocuments)
    (disk : Disk)
    (edit : Edit) :
    (perform disk w edit).1.NamesDocuments := by
  cases edit with
  | rename base rule =>
      intro entry hMem
      rw [Writer.perform, assets_performRename] at hMem
      exact hStaged entry hMem
  | addEffect base effect =>
      rw [Writer.perform]
      unfold performEffect
      split
      · exact hStaged
      · rename_i name _
        have hPath := DataFile.asset_isDocument w.dir name
        dsimp only
        split
        · exact hStaged
        · rename_i a hLoad
          have hAsset :=
            isDocument_loadAsset hStaged hPath hLoad
          split
          · exact hStaged.stageAsset _ ⟨a.path, _⟩ hAsset
          · exact hStaged.stageAsset _ ⟨a.path, _⟩ hAsset

/- What staging any edit keeps, staging edits keeps. -/
theorem performAll_preserves
    {P : Writer → Prop}
    (hStep :
      ∀ (w : Writer) (edit : Edit),
        P w → P (perform disk w edit).1)
    (hHolds : P w)
    (edits : List Edit) :
    P (performAll disk w edits).1 := by
  induction edits generalizing w with
  | nil => exact hHolds
  | cons edit edits ih =>
      have hHead := hStep w edit hHolds
      unfold performAll
      cases hPerform : perform disk w edit with
      | mk next failure =>
          rw [hPerform] at hHead
          cases failure with
          | some e => exact hHead
          | none => exact ih hHead

/- Staging edits uses paths of documents only. -/
theorem NamesDocuments.performAll
    (hStaged : w.NamesDocuments)
    (disk : Disk)
    (edits : List Edit) :
    (performAll disk w edits).1.NamesDocuments :=
  performAll_preserves
    (fun _ edit hHolds => hHolds.perform disk edit) hStaged edits

/- So does staging rules in a new writer. -/
theorem namesDocuments_of_writeAll
    {dir : Path}
    {catalog : Catalog}
    {rules : List Rule}
    (hWrite :
      (new dir catalog).writeAll disk rules = (w, none)) :
    w.NamesDocuments := by
  have hNamed :=
    (namesDocuments_new dir catalog).performAll disk
      (rules.flatMap Rule.edits)
  unfold writeAll at hWrite
  rw [hWrite] at hNamed
  exact hNamed

/- The staged files are documents. -/
theorem isDocument_of_mem_files
    (hStaged : w.NamesDocuments)
    {entry : Path × Json.Value}
    (hMem : entry ∈ w.files) :
    entry.1.IsDocument := by
  have hTable :
      ∀ {path : Path} {rows : Option (List Json.Value)},
        path.IsDocument →
          entry ∈ tableFile path rows →
            entry.1.IsDocument := by
    intro path rows hPath hEntry
    cases rows with
    | none => cases hEntry
    | some rows =>
        rw [tableFile, List.mem_singleton] at hEntry
        rw [hEntry]
        exact hPath
  unfold files at hMem
  rw [List.mem_append, List.mem_append, List.mem_map] at hMem
  rcases hMem with (hNames | hRunes) | ⟨staged, hAsset, rfl⟩
  · exact hTable (DataFile.itemNames_isDocument w.dir) hNames
  · exact hTable (DataFile.itemRunes_isDocument w.dir) hRunes
  · exact hStaged staged hAsset

end Writer

end LootFilter
