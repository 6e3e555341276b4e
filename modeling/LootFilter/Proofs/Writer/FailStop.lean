import LootFilter.Proofs.Backup.Stopped
import LootFilter.Proofs.Writer.Calls

/-
  Where finishing stops if it fails.

  Files are written one after the other, each after its copy
  was seen to.  So the files before the one at which finishing
  stops are done, and those after it are as they were.  The
  file itself is as it was, too, unless the system broke off
  writing it.

  Main declarations:
    * `Writer.SpellsTables`
    * `Writer.Overwritten`
    * `Writer.FailStop`
    * `Writer.failStop_finish`
    * `Writer.failStop_missed`
-/

namespace LootFilter

open Json (Document Value)

namespace Writer

open Backup (GoesElsewhere StoppedAt Stands ApartFrom copyPlace)
open Disk (IsSpelled)

variable {disk now : Disk} {w : Writer} {p : Path} {v : Value}
variable {done rest : List (Path × Value)}

------------------------------------------------------------
-- Paths of Staged Files
------------------------------------------------------------

/- What is read has a path that the system takes. -/
theorem isSpelled_of_readJson
    {α : Type}
    {read : Document → Except Json.Fault α}
    {a : α}
    (hRead : DataFile.readJson read disk p = .ok a) :
    IsSpelled p := by
  rcases DataFile.readJson_eq_ok_iff.mp hRead with
    ⟨l, _, hLocate, _⟩
  exact (Disk.locate_eq_ok_iff.mp hLocate).1

/- Whether the system takes the paths of the staged tables. -/
def SpellsTables (w : Writer) : Prop :=
  ∀ rune,
    w.staging.table rune ≠ none →
      IsSpelled (DataFile.stringTable w.dir rune)

/- A table is staged once it was read. -/
theorem isSpelled_of_loadTable
    {staged : Option (List Value)}
    {rows : List Value}
    (hSpelled : staged ≠ none → IsSpelled p)
    (hLoad : loadTable disk p staged = .ok rows) :
    IsSpelled p := by
  cases staged with
  | some _ => exact hSpelled (by simp)
  | none =>
      exact
        isSpelled_of_readJson (readJson_eq_ok_iff.mp hLoad)

/- Staging an edit reads the tables that it stages. -/
theorem SpellsTables.perform
    (hSpells : w.SpellsTables)
    (disk : Disk)
    (edit : Edit) :
    (Writer.perform disk w edit).1.SpellsTables := by
  have hRunes := hSpells true
  have hNames := hSpells false
  cases edit with
  | addEffect base effect =>
      have hTables := performEffect_tables disk w base effect
      intro rune hTable
      rw [Writer.perform, hTables.2] at hTable
      rw [Writer.perform, hTables.1]
      exact hSpells rune hTable
  | rename base rule =>
      rw [Writer.perform]
      unfold performRename
      dsimp only
      split
      · split
        · exact hSpells
        · rename_i hLoad
          rintro (_ | _) hTable
          · exact hNames hTable
          · exact isSpelled_of_loadTable hRunes hLoad
      · split
        · exact hSpells
        · rename_i hLoad
          rintro (_ | _) hTable
          · exact isSpelled_of_loadTable hNames hLoad
          · exact hRunes hTable

/-
  Calls of a new writer stage files under paths that the
  system takes.
-/
theorem isSpelled_of_mem_files
    {dir : Path}
    {catalog : Catalog}
    {calls : List (Disk × Rule)}
    {entry : Path × Value}
    (hMem :
      entry ∈ ((new dir catalog).writeEach calls).files) :
    IsSpelled entry.1 := by
  have hStaged :=
    StagedBy.nil.writeEach (w := new dir catalog) calls
  have hTables :
      ((new dir catalog).writeEach calls).SpellsTables := by
    apply writeEach_preserves (P := SpellsTables)
    · exact fun disk w edit hSpells => hSpells.perform disk edit
    · rintro (_ | _) hTable <;> exact absurd rfl hTable
  rcases mem_files_iff.mp hMem with
    ⟨rune, rows, hTable, rfl⟩ | ⟨asset, hAsset, rfl⟩
  · exact hTables rune (by simp [hTable])
  · have hFind :=
      (Assoc.find?_eq_some_iff hStaged.nodup_keys).mpr hAsset
    rcases hStaged.descriptor _ _ hFind with
      ⟨_, first, _, doc, _, _, _, hPath, hDoc, _⟩
    rw [hPath]
    exact
      isSpelled_of_readJson (Use.doc?_eq_some_iff.mp hDoc)

------------------------------------------------------------
-- Finishing
------------------------------------------------------------

/-
  Whether a path was given bytes, and has a copy.  One that is
  new holds what was there before.
-/
structure Overwritten
    (disk now : Disk)
    (p : Path)
    (bytes : ByteArray) : Prop where
  file : now.read p = .ok bytes
  copy : now.hasNode (DataFile.backup p) = true
  original :
    disk.hasNode (DataFile.backup p) = false →
      now.lookup (DataFile.backup p) = disk.lookup p

/-
  What finishing has done when it stops at a staged file.  The
  files before are written.  The file itself is as it was, or
  holds what is left of writing it that was broken off.  Those
  after it are as they were, without new copies.  Old copies
  and all other places are as they were, too.
-/
structure FailStop
    (writing : Transfer)
    (reason : IoError)
    (disk now : Disk)
    (done : List (Path × Value))
    (p : Path)
    (v : Value)
    (rest : List (Path × Value)) : Prop where
  written :
    ∀ entry ∈ done,
      Overwritten disk now entry.1
        (DataFile.encodeJson entry.2)
  file :
    (∀ n, now.lookup p = .ok n ↔ disk.lookup p = .ok n) ∨
      ∃ left,
        writing = .stopped reason left ∧
          Overwritten disk now p left
  unwritten :
    ∀ entry ∈ rest, ∀ n,
      now.lookup entry.1 = .ok n ↔ disk.lookup entry.1 = .ok n
  uncopied :
    ∀ entry ∈ rest, ∀ n,
      now.lookup (DataFile.backup entry.1) = .ok n ↔
        disk.lookup (DataFile.backup entry.1) = .ok n
  backups :
    ∀ x n,
      Backup.endsInBackup x = true →
        disk.node? x = some n → now.node? x = some n
  others :
    ∀ x,
      (∀ entry ∈ done ++ (p, v) :: rest,
        ApartFrom disk entry.1 x) →
        now.node? x = disk.node? x

/- A file that stands at its place was given its bytes. -/
theorem overwritten_of_stands
    {bytes : ByteArray}
    {l : Location}
    (hFolders : Disk.SameFolders disk now)
    (hStands : Stands disk now p bytes l) :
    Overwritten disk now p bytes := by
  have hPlace := hFolders.locate_eq_ok hStands.place
  have hCopy := hFolders.locate_eq_ok hStands.backup
  rcases Option.ne_none_iff_exists'.mp hStands.copy with
    ⟨n, hNode⟩
  refine
    { file := Disk.read_eq_ok_iff.mpr ⟨l, hPlace, hStands.file⟩
      copy := Disk.hasNode_iff.mpr ⟨_, n, hCopy, hNode⟩
      original := ?_ }
  intro hNew
  have hFree : disk.node? (copyPlace l) = none := by
    by_contra hTaken
    rcases Option.ne_none_iff_exists'.mp hTaken with
      ⟨old, hOld⟩
    rw [Disk.hasNode_iff.mpr ⟨_, old, hStands.backup, hOld⟩]
      at hNew
    cases hNew
  simp only [Disk.lookup, hCopy, hStands.place, bind,
    Except.bind, hStands.original hFree]

/- A path is looked up alike where its place is unchanged. -/
theorem lookup_eq_ok_iff_of_node?
    {q : Path}
    (hFolders : Disk.SameFolders disk now)
    (hSame :
      ∀ l, disk.locate q = .ok l → now.node? l = disk.node? l)
    (n : Node) :
    now.lookup q = .ok n ↔ disk.lookup q = .ok n := by
  rw [Disk.lookup_eq_ok_iff, Disk.lookup_eq_ok_iff]
  constructor
  · rintro ⟨l, hLocate, hNode⟩
    have hPlace := hFolders.symm.locate_eq_ok hLocate
    exact ⟨l, hPlace, (hSame l hPlace).symm.trans hNode⟩
  · rintro ⟨l, hLocate, hNode⟩
    exact
      ⟨l, hFolders.locate_eq_ok hLocate,
        (hSame l hLocate).trans hNode⟩

/- The copy of a file whose path is taken is next to it. -/
theorem exists_place_of_backup
    {m : Location}
    (hSpelled : IsSpelled p)
    (hDocument : p.IsDocument)
    (hBackup : disk.locate (DataFile.backup p) = .ok m) :
    ∃ l, disk.locate p = .ok l ∧ m = copyPlace l := by
  rcases hDocument with ⟨segments, stem, hPath⟩
  have hName := Backup.namesEntry_append_json stem
  have hLong :=
    Backup.namesEntry_append_backupSuffix (stem ++ ".json")
  have hShorter :
      (stem ++ ".json").utf8ByteSize ≤
        (stem ++ ".json" ++
          DataFile.backupSuffix).utf8ByteSize := by
    simp only [String.utf8ByteSize_append]
    omega
  have hCopy := Backup.backup_eq_withName hPath
  rcases Disk.exists_locate_of_withName hSpelled hPath hName
      hShorter hLong (hCopy ▸ hBackup) with
    ⟨l, hLocate⟩
  rcases Backup.exists_parent_of_locate_backup hPath hName
      hLocate hBackup with
    ⟨_, _, _, rfl⟩
  exact ⟨l, hLocate, rfl⟩

/- What stopping at a file comes to, told by paths. -/
theorem failStop_of_stoppedAt
    {writing : Transfer}
    {reason : IoError}
    (hDocuments :
      ∀ entry ∈ done ++ (p, v) :: rest, entry.1.IsDocument)
    (hSpelled : ∀ entry ∈ rest, IsSpelled entry.1)
    (hElsewhere :
      (done ++ (p, v) :: rest).Pairwise (GoesElsewhere disk))
    (hStopped : StoppedAt writing reason disk now done p v) :
    FailStop writing reason disk now done p v rest := by
  have hSplit :
      done ++ (p, v) :: rest = (done ++ [(p, v)]) ++ rest := by
    simp
  rw [hSplit] at hDocuments hElsewhere
  have hAcross := (List.pairwise_append.mp hElsewhere).2.2
  have hChanged :
      ∀ entry ∈ done ++ [(p, v)], ∀ l,
        disk.locate entry.1 = .ok l →
          ∀ m, l ≠ copyPlace m :=
    fun entry hMem l hPlace =>
      Backup.ne_copyPlace_of_locate
        (hDocuments entry (List.mem_append_left _ hMem)) hPlace
  refine
    { written := ?_
      file := ?_
      unwritten := ?_
      uncopied := ?_
      backups := ?_
      others := ?_ }
  · intro entry hMem
    rcases hStopped.stands entry hMem with ⟨l, hStands⟩
    exact overwritten_of_stands hStopped.folders hStands
  · rcases hStopped.file with
      hSame | ⟨left, l, hTransfer, hStands⟩
    · left
      exact lookup_eq_ok_iff_of_node? hStopped.folders hSame
    · right
      exact
        ⟨left, hTransfer,
          overwritten_of_stands hStopped.folders hStands⟩
  · intro entry hMem n
    apply lookup_eq_ok_iff_of_node? hStopped.folders
    intro l hLocate
    by_contra hDiffers
    rcases hStopped.changed l hDiffers with
      ⟨other, hOther, m, hPlace, rfl | ⟨_, hCopy⟩⟩
    · exact hAcross other hOther entry hMem l hPlace hLocate
    · have hDocument :=
        hDocuments entry (List.mem_append_right _ hMem)
      exact
        Backup.ne_copyPlace_of_locate hDocument hLocate m hCopy
  · intro entry hMem n
    apply lookup_eq_ok_iff_of_node? hStopped.folders
    intro m hBackup
    have hDocument :=
      hDocuments entry (List.mem_append_right _ hMem)
    rcases exists_place_of_backup (hSpelled entry hMem) hDocument
        hBackup with
      ⟨l, hLocate, rfl⟩
    by_contra hDiffers
    rcases hStopped.changed _ hDiffers with
      ⟨other, hOther, m, hPlace, hFile | ⟨_, hCopy⟩⟩
    · exact hChanged other hOther m hPlace l hFile.symm
    · cases Backup.copyPlace_injective hCopy
      exact hAcross other hOther entry hMem l hPlace hLocate
  · intro x n hName hNode
    rw [← hNode]
    by_contra hDiffers
    rcases hStopped.changed x hDiffers with
      ⟨other, hOther, m, hPlace, rfl | ⟨hFree, _⟩⟩
    · rcases Backup.endsInBackup_iff.mp hName with
        ⟨f, _, hCopy⟩
      exact hChanged other hOther x hPlace f hCopy
    · rw [hFree] at hNode
      cases hNode
  · intro x hApart
    by_contra hDiffers
    rcases hStopped.changed x hDiffers with
      ⟨other, hOther, m, hPlace, hCase⟩
    have hIn : other ∈ done ++ (p, v) :: rest := by
      rw [hSplit]
      exact List.mem_append_left _ hOther
    rcases hCase with hFile | ⟨_, hCopy⟩
    · exact (hApart other hIn m hPlace).1 hFile
    · exact (hApart other hIn m hPlace).2 hCopy

/-
  Finishing is fail-stop.  It writes the tables and then the
  descriptors in the order in which they were first read.  If
  it fails, it has stopped at the file that the error names,
  whatever the device did to the files before.
-/
theorem failStop_finish
    {dir : Path}
    {catalog : Catalog}
    {calls : List (Disk × Rule)}
    (hWriter : w = (new dir catalog).writeEach calls)
    (hElsewhere : w.files.Pairwise (GoesElsewhere disk)) :
    ∃ uses,
      Makes dir catalog (new dir catalog) calls uses ∧
        Assoc.keys w.staging.assets = readKeys uses ∧
        ∀ device e,
          (w.finish device disk).failure = some e →
            ∃ done p v rest reason,
              w.files = done ++ (p, v) :: rest ∧
                e = .io p reason ∧
                FailStop (device.writing done.length p) reason
                  disk (w.finish device disk).disk done p v
                  rest := by
  subst hWriter
  have hStaged :=
    StagedBy.nil.writeEach (w := new dir catalog) calls
  have hNamed :
      ((new dir catalog).writeEach calls).NamesDocuments :=
    (namesDocuments_new dir catalog).writeEach calls
  have hDocuments :
      ∀ entry ∈ ((new dir catalog).writeEach calls).files,
        entry.1.IsDocument :=
    fun entry hMem => isDocument_of_mem_files hNamed hMem
  refine
    ⟨_, makes_usesEach (new dir catalog) calls, hStaged.keys, ?_⟩
  intro device e hFailed
  rcases Backup.exists_stoppedAt hFailed hDocuments hElsewhere
    with
    ⟨done, p, v, rest, reason, hFiles, hError, hStopped⟩
  have hSpelled : ∀ entry ∈ rest, IsSpelled entry.1 := by
    intro entry hMem
    have hStagedMem :
        entry ∈ ((new dir catalog).writeEach calls).files := by
      rw [hFiles]
      simp [hMem]
    exact isSpelled_of_mem_files hStagedMem
  rw [hFiles] at hDocuments hElsewhere
  exact
    ⟨done, p, v, rest, reason, hFiles, hError,
      failStop_of_stoppedAt hDocuments hSpelled hElsewhere
        hStopped⟩

------------------------------------------------------------
-- Writers That Stop
------------------------------------------------------------

/- A table of one row. -/
def rowText (key name : String) : String :=
  "[\x7b\"Key\":\"" ++ key ++ "\",\"enUS\":\"" ++ name ++
    "\"\x7d]"

/- A data directory without the table of runes. -/
def runelessTree : Disk :=
  ⟨[(["data"], .folder), (["data", "local"], .folder),
    (["data", "local", "lng"], .folder),
    (["data", "local", "lng", "strings"], .folder),
    (["data", "local", "lng", "strings", "item-names.json"],
      .file (rowText "cap" "Cap").toUTF8),
    (["data", "hd"], .folder), (["data", "hd", "items"], .folder),
    (["data", "hd", "items", "x.json"],
      .file "\x7b\"entities\":[]\x7d".toUTF8)], []⟩

/- The place of the table of runes. -/
def runesPlace : Location :=
  ["data", "local", "lng", "strings", "item-runes.json"]

/- The directory as it was when rules were staged. -/
def runedTree : Disk :=
  runelessTree.put runesPlace (.file (rowText "r01" "El").toUTF8)

/- A rule that hides an item and a rune, and an effect. -/
def halfRules : List Rule :=
  [ ⟨1, .hideItem, some (BaseSet.ofList ["cap", "r01"]), none,
      []⟩,
    ⟨2, .showItem, some (BaseSet.ofList ["cap"]), none,
      [.glitter]⟩ ]

/- A catalog with the asset of the item. -/
def halfCatalog : Catalog :=
  Catalog.empty.setAsset "cap" "x"

/- The calls that stage the rules. -/
def halfCalls : List (Disk × Rule) :=
  halfRules.map fun rule => (runedTree, rule)

/- The writer of the rules. -/
def halfWriter : Writer :=
  (new ⟨["data"]⟩ halfCatalog).writeEach halfCalls

/- Finishing it stops at the second of its three files. -/
theorem failStop_finish_runeless :
    (halfWriter.files.length = 3 ∧
      (halfWriter.finish .sound runelessTree).failure =
        some
          (.io (DataFile.itemRunes ⟨["data"]⟩) .notFound)) ∧
      halfWriter.files.Pairwise (GoesElsewhere runelessTree) ∧
      ∃ done p v rest reason,
        halfWriter.files = done ++ (p, v) :: rest ∧
          WriteError.io (DataFile.itemRunes ⟨["data"]⟩)
              .notFound =
            .io p reason ∧
          FailStop (Device.sound.writing done.length p) reason
            runelessTree
            (halfWriter.finish .sound runelessTree).disk done
            p v rest := by
  have hFails :
      (halfWriter.finish .sound runelessTree).failure =
        some
          (.io (DataFile.itemRunes ⟨["data"]⟩) .notFound) := by
    decide +kernel
  have hPlaces :
      (halfWriter.files.map (runelessTree.locate ·.1)).Nodup := by
    decide +kernel
  have hElsewhere :
      halfWriter.files.Pairwise (GoesElsewhere runelessTree) := by
    apply (List.pairwise_map.mp hPlaces).imp
    intro a b hNe l hA hB
    exact hNe (hA.trans hB.symm)
  have hWriter :
      halfWriter =
        (new ⟨["data"]⟩ halfCatalog).writeEach halfCalls :=
    rfl
  rcases failStop_finish hWriter hElsewhere with
    ⟨_, _, _, hStops⟩
  exact
    ⟨⟨by decide +kernel, hFails⟩, hElsewhere,
      hStops _ _ hFails⟩

/- A device that runs full while the second file is written. -/
def fullDevice : Device :=
  ⟨fun _ _ => .whole,
    fun i _ =>
      if i = 1 then .stopped .noSpace "[".toUTF8 else .whole⟩

/- A rule that puts an effect on an item. -/
def glitterRule (base : String) : Rule :=
  ⟨1, .showItem, some (BaseSet.ofList [base]), none, [.glitter]⟩

/- A data directory with one of the descriptors of two items. -/
def assetTree (name : String) : Disk :=
  ⟨[(["data"], .folder), (["data", "hd"], .folder),
    (["data", "hd", "items"], .folder),
    (["data", "hd", "items", name],
      .file "\x7b\"entities\":[]\x7d".toUTF8)], []⟩

/- A catalog with the assets of the two items. -/
def twoCatalog : Catalog :=
  (Catalog.empty.setAsset "cap" "p").setAsset "axe" "q"

/-
  Calls for an item whose descriptor is missing at first, for
  another one, and for the first one again.
-/
def lateCalls : List (Disk × Rule) :=
  [ (assetTree "q.json", glitterRule "cap"),
    (assetTree "q.json", glitterRule "axe"),
    (assetTree "p.json", glitterRule "cap") ]

/- The writer of these calls. -/
def lateWriter : Writer :=
  (new ⟨["data"]⟩ twoCatalog).writeEach lateCalls

/-
  The file at which finishing stops need not be as it was.  And
  a descriptor that was asked for first, but read only later,
  is not written before the one that was read first.
-/
theorem failStop_missed :
    ((halfWriter.files.map (runedTree.locate ·.1)).Nodup ∧
      (halfWriter.finish fullDevice runedTree).failure =
        some
          (.io (DataFile.itemRunes ⟨["data"]⟩) .noSpace) ∧
      runedTree.node? runesPlace =
        some (.file (rowText "r01" "El").toUTF8) ∧
      (halfWriter.finish fullDevice runedTree).disk.node?
          runesPlace =
        some (.file "[".toUTF8)) ∧
      ((new ⟨["data"]⟩ twoCatalog).write (assetTree "q.json")
          (glitterRule "cap")).2 =
        some (.io (DataFile.asset ⟨["data"]⟩ "p") .notFound) ∧
      lateWriter.files.map Prod.fst =
        [DataFile.asset ⟨["data"]⟩ "q",
          DataFile.asset ⟨["data"]⟩ "p"] ∧
      (lateWriter.files.map
        ((assetTree "p.json").locate ·.1)).Nodup ∧
      (lateWriter.finish .sound (assetTree "p.json")).failure =
        some (.io (DataFile.asset ⟨["data"]⟩ "q") .notFound) ∧
      (lateWriter.finish .sound (assetTree "p.json")).disk =
        assetTree "p.json" := by
  decide +kernel

end Writer

end LootFilter
