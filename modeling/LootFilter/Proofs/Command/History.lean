import LootFilter.Proofs.Backup.Confined
import LootFilter.Proofs.Command.Same

/-
  A run does not depend on earlier runs.

  Earlier runs leave the tree confined: restoring it gives the
  first tree back at every place, also where nothing was ever
  restored.  The stages after that do the same to trees that
  cannot be told apart.

  Main declarations:
    * `Backup.Confined.calls`
    * `Backup.Confined.same_restoreAll`
    * `CommandLine.execute_afterCalls`
-/

namespace LootFilter

open Backup (Kept Pristine Reaches Confined AssetsInside)

variable {before now : Disk} {dir : Location}

------------------------------------------------------------
-- Calls of the Program
------------------------------------------------------------

open CommandLine (Call afterCalls)

/- Calls keep to the files that are restored. -/
theorem Backup.Confined.calls
    (hConfined : Confined before dir now)
    (hTree : before.WellFormed)
    (hPristine : Pristine before dir)
    (hAssets : AssetsInside before dir)
    {calls : List Call}
    (hCalls : ∀ call ∈ calls, call.ActsOn before dir)
    (hWhole :
      ∀ call ∈ calls, ∀ l, ¬ call.device.Tears before l) :
    Confined before dir (afterCalls now calls) := by
  induction calls generalizing now with
  | nil => exact hConfined
  | cons call rest ih =>
      rw [List.forall_mem_cons] at hCalls hWhole
      exact
        ih
          (hConfined.call hTree hPristine hAssets hCalls.1
            hWhole.1)
          hCalls.2 hWhole.2

------------------------------------------------------------
-- Restoring
------------------------------------------------------------

section Restoring

variable {path : Path}

/- A spelling that reaches everything did so at first. -/
theorem Backup.Confined.reaches_before
    (hConfined : Confined before dir now)
    (hPristine : Pristine before dir)
    (hReaches : Reaches now dir path) :
    Reaches before dir path := by
  apply hReaches.mono
  rintro x n hNode (rfl | hCopy)
  · exact (hConfined.kept.folders.folder x).mp hNode
  · rw [hConfined.outside, hNode]
    -- Below a root, a pristine tree has no such name.
    intro hUnder
    rcases hUnder.exists_concat with ⟨parent, name, rfl⟩
    have hName :=
      hPristine parent name hUnder (by simp [hNode])
    simp [Backup.endsInBackup, hName] at hCopy

/- Restoring gives the first tree back, at every place. -/
theorem Backup.Confined.same_restoreAll
    (hConfined : Confined before dir now)
    (hTree : before.WellFormed)
    (hPristine : Pristine before dir)
    (hDirectory : before.locate path = .ok dir)
    (hReaches : Reaches now dir path) :
    (Backup.restoreAll now path).failure = none ∧
      Disk.Same (Backup.restoreAll now path).disk before := by
  have hRestored :=
    hConfined.kept.restored hTree hPristine hDirectory hReaches
  have hEnd :=
    hConfined.restoreAll hTree hPristine hDirectory
  refine
    ⟨hRestored.failure, hEnd.kept.folders.home.symm, ?_⟩
  intro l
  by_cases hUnder : Backup.UnderRoot dir l
  · exact hRestored.original l hUnder
  · exact hEnd.outside l hUnder

end Restoring

------------------------------------------------------------
-- Independence
------------------------------------------------------------

namespace CommandLine

variable {options : Options}

/- Once earlier runs are undone, only the rest can fail. -/
theorem execute_of_restored
    (device : Device)
    {disk : Disk}
    (hCheck : options.check = false)
    (hRestored :
      (Backup.restoreAll disk
        (Path.ofText options.dir)).failure = none) :
    ∃ events,
      options.execute device disk =
        (proceed device
          (Backup.restoreAll disk (Path.ofText options.dir)).disk
          options).after events := by
  unfold Options.execute
  simp only [hCheck, Bool.false_eq_true, if_false, hRestored]
  exact ⟨_, rfl⟩

/- In a pristine tree, there is nothing to undo. -/
theorem execute_of_pristine
    (device : Device)
    (hTree : before.WellFormed)
    (hPristine : Pristine before dir)
    (hCheck : options.check = false)
    (hDirectory :
      before.locate (Path.ofText options.dir) = .ok dir)
    (hReaches :
      Reaches before dir (Path.ofText options.dir)) :
    ∃ events,
      options.execute device before =
        (proceed device before options).after events := by
  have hNothing :=
    Backup.restoreAll_of_pristine hTree hPristine hDirectory
      hReaches
  have hDone :
      (Backup.restoreAll before
        (Path.ofText options.dir)).failure = none := by
    rw [hNothing]
  have hRun := execute_of_restored device hCheck hDone
  rw [hNothing] at hRun
  exact hRun

/- A run fails if earlier runs cannot be undone. -/
theorem code_execute_of_failure
    (device : Device)
    {disk : Disk}
    (hCheck : options.check = false)
    (hFailure :
      (Backup.restoreAll disk
        (Path.ofText options.dir)).failure ≠ none) :
    (options.execute device disk).code = 1 := by
  unfold Options.execute
  simp only [hCheck, Bool.false_eq_true, if_false]
  split
  · rfl
  · rename_i hNone
    exact absurd hNone hFailure

/-
  A run does not depend on earlier runs.  After any calls on a
  pristine data directory, in which no asset is outside of its
  folder, and of which none broke off a copy, a run without a
  check ends with the same code and error on any device as if
  it were the first, and leaves the same at every place.  If it
  does not get as far as writing, that is what was there at
  first.
-/
theorem execute_afterCalls
    (hTree : before.WellFormed)
    (hPristine : Pristine before dir)
    (hAssets : AssetsInside before dir)
    {calls : List Call}
    (hCalls : ∀ call ∈ calls, call.ActsOn before dir)
    (hWhole :
      ∀ call ∈ calls, ∀ l, ¬ call.device.Tears before l)
    (hNow : afterCalls before calls = now)
    (hCheck : options.check = false)
    (hDirectory :
      before.locate (Path.ofText options.dir) = .ok dir)
    (hReaches : Reaches now dir (Path.ofText options.dir))
    (device : Device) :
    (options.execute device now).code =
        (options.execute device before).code ∧
      (options.execute device now).failure =
        (options.execute device before).failure ∧
      Disk.Same (options.execute device now).disk
        (options.execute device before).disk ∧
      (options.staged?
          (Backup.restoreAll now
            (Path.ofText options.dir)).disk = none →
        Disk.Same (options.execute device now).disk before) := by
  have hConfined : Confined before dir now :=
    hNow ▸
      (Confined.refl hTree hPristine).calls hTree hPristine
        hAssets hCalls hWhole
  rcases hConfined.same_restoreAll hTree hPristine hDirectory
      hReaches with
    ⟨hDone, hSame⟩
  rcases execute_of_restored device hCheck hDone with
    ⟨events, hExecute⟩
  rcases execute_of_pristine device hTree hPristine hCheck
      hDirectory
      (hConfined.reaches_before hPristine hReaches) with
    ⟨firstEvents, hFirstExecute⟩
  -- Both runs go on from trees that are the first one.
  have hRun := sameRun_proceed hSame device options
  rw [hExecute, hFirstExecute]
  refine ⟨?_, hRun.failure, hRun.disk, ?_⟩
  · unfold Run.code Run.after
    rw [hRun.failure]
  · intro hNone
    have hDisk :=
      disk_proceed device
        (Backup.restoreAll now (Path.ofText options.dir)).disk
        hCheck
    rw [hNone] at hDisk
    dsimp only [Run.after]
    rw [hDisk]
    exact hSame

/- The index of assets of a small data directory. -/
def capIndex : String :=
  "[\x7b\"cap\":\x7b\"asset\":\"armor/cap\"\x7d\x7d]"

/- Its table of names. -/
def capNames : String :=
  "[\x7b\"Key\":\"cap\",\"enUS\":\"Cap\"\x7d]"

/- A data directory with one item, and filters next to it. -/
def capTree : Disk :=
  ⟨[(["data"], .folder), (["data", "local"], .folder),
    (["data", "local", "lng"], .folder),
    (["data", "local", "lng", "strings"], .folder),
    (["data", "local", "lng", "strings", "item-names.json"],
      .file capNames.toUTF8),
    (["data", "local", "lng", "strings", "item-runes.json"],
      .file "[]".toUTF8),
    (["data", "global"], .folder),
    (["data", "global", "excel"], .folder),
    (["data", "global", "excel", "armor.txt"],
      .file "name\tcode\nCap\tcap\n".toUTF8),
    (["data", "hd"], .folder),
    (["data", "hd", "items"], .folder),
    (["data", "hd", "items", "items.json"],
      .file capIndex.toUTF8),
    (["hide"], .file "Hide\n    BaseType Cap\n".toUTF8),
    (["nothing"], .file "".toUTF8)], []⟩

/- It is a pristine tree, with the asset in its folder. -/
theorem capTree_pristine :
    capTree.WellFormed ∧ Pristine capTree ["data"] ∧
      AssetsInside capTree ["data"] := by
  refine
    ⟨⟨by decide, by decide, by decide,
      by decide⟩,
      Backup.pristine_of_keys (by decide), ?_⟩
  intro bytes entries hFile hHolds
  have hIndex :
      capTree.node? (DataFile.indexPlace ["data"]) =
        some (.file capIndex.toUTF8) := by
    decide
  have hEntries :
      DataFile.Holds assetIndexOfDocument capIndex.toUTF8
        [("cap", "armor/cap")] :=
    ⟨capIndex, by decide, by decide +kernel⟩
  cases hFile.symm.trans hIndex
  cases hHolds.unique hEntries
  intro entry hMem
  rw [List.mem_singleton] at hMem
  subst hMem
  exact ⟨by decide, by decide⟩

/- A run that hides the item. -/
def hideCap : Options :=
  ⟨"hide", "data", false, 0⟩

/- A call for it. -/
def hideCall (device : Device) : Call :=
  ⟨none, ["hide", "data"], device, none⟩

/- That is what its arguments ask for. -/
theorem ofArguments_hideCall (device : Device) :
    Request.ofArguments (hideCall device).args =
      .run hideCap := by
  change Request.ofArguments ["hide", "data"] = .run hideCap
  decide

/- It acts on the data directory. -/
theorem hideCall_actsOn (device : Device) :
    (hideCall device).ActsOn capTree ["data"] := by
  intro options hRequest
  cases (ofArguments_hideCall device).symm.trans hRequest
  decide

/- So does each call, if it is the only one. -/
theorem hideCall_sound_actsOn :
    ∀ call ∈ [hideCall .sound],
      call.ActsOn capTree ["data"] := by
  simpa using hideCall_actsOn .sound

/- No copy is broken off by a sound device. -/
theorem hideCall_whole :
    ∀ call ∈ [hideCall .sound], ∀ l,
      ¬ call.device.Tears capTree l := by
  simp [hideCall, Device.Tears, Device.sound,
    Transfer.IsStopped]

/- It finds nothing to restore. -/
theorem execute_hideCap (device : Device) :
    ∃ events,
      hideCap.execute device capTree =
        (proceed device capTree hideCap).after events := by
  have hReaches :
      Reaches capTree ["data"] (Path.ofText "data") :=
    Backup.reaches_of_keys (fun root => ⟨["data", root]⟩)
      (by decide) (by decide)
  rcases capTree_pristine with ⟨hTree, hPristine, _⟩
  exact
    execute_of_pristine device hTree hPristine rfl (by decide)
      hReaches

/- So a call leaves what the writing does. -/
theorem afterCalls_hideCall
    (device : Device)
    {next : Disk}
    (hDisk : (proceed device capTree hideCap).disk = next) :
    afterCalls capTree [hideCall device] = next := by
  rcases execute_hideCap device with ⟨events, hExecute⟩
  rw [afterCalls, List.foldl_cons, List.foldl_nil, Call.after,
    ofArguments_hideCall]
  unfold answer
  rw [ofArguments_hideCall]
  exact (congrArg Run.disk hExecute).trans hDisk

/- The table of names without that of the item. -/
def hiddenNames : String :=
  "\uFEFF[\n  \x7b\n    \"Key\": \"cap\",\n" ++
    "    \"enUS\": \"\"\n  \x7d\n]"

/- The tree with this table, and a copy of the first one. -/
def hiddenTree : Disk :=
  let strings := ["data", "local", "lng", "strings"]
  (capTree.put (strings ++ ["item-names.json.d2lootfilter"])
      (.file capNames.toUTF8)).put
    (strings ++ ["item-names.json"])
    (.file hiddenNames.toUTF8)

/- The call leaves this tree behind. -/
theorem afterCalls_hideCall_sound :
    afterCalls capTree [hideCall .sound] = hiddenTree :=
  afterCalls_hideCall .sound (by decide +kernel)

/- The tree is one after earlier runs. -/
theorem confined_hiddenTree :
    Confined capTree ["data"] hiddenTree := by
  rcases capTree_pristine with ⟨hTree, hPristine, hAssets⟩
  rw [← afterCalls_hideCall_sound]
  exact
    (Confined.refl hTree hPristine).calls hTree hPristine
      hAssets hideCall_sound_actsOn hideCall_whole

/- Hiding the item again comes out as at first. -/
theorem execute_afterCalls_hidden :
    Disk.Same (hideCap.execute .sound hiddenTree).disk
        (hideCap.execute .sound capTree).disk ∧
      (hideCap.execute .sound hiddenTree).code =
        (hideCap.execute .sound capTree).code := by
  have hReaches :
      Reaches hiddenTree ["data"] (Path.ofText hideCap.dir) :=
    Backup.reaches_of_keys (fun root => ⟨["data", root]⟩)
      (by decide) (by decide)
  have hCheck : hideCap.check = false := rfl
  rcases capTree_pristine with ⟨hTree, hPristine, hAssets⟩
  rcases execute_afterCalls hTree hPristine hAssets
      hideCall_sound_actsOn hideCall_whole
      afterCalls_hideCall_sound hCheck (by decide) hReaches
      .sound with
    ⟨hCode, _, hSame, _⟩
  exact ⟨hSame, hCode⟩

------------------------------------------------------------
-- Spellings That Do Not Serve
------------------------------------------------------------

/- A run of the empty filter. -/
def hideNothing (dir : String) : Options :=
  ⟨"nothing", dir, false, 0⟩

/- The directory, with dots behind it. -/
def longDir (dots : Nat) : String :=
  (Session.spelling dots []).text

section LongDir

variable {dots : Nat}

/- It is read as it is spelled. -/
theorem ofText_longDir :
    Path.ofText (longDir dots) = Session.spelling dots [] := by
  apply Path.ofText_text
  · simp [Session.spelling]
  · intro segment hMem
    simp only [Session.spelling, List.append_nil,
      List.mem_cons, List.mem_replicate] at hMem
    rcases hMem with rfl | ⟨_, rfl⟩ <;> decide

/- Names written behind the dots lead below the directory. -/
theorem locate_behind_dots
    {names : Location}
    (hNames : Disk.IsPlace names)
    (hSize :
      4 + 2 * dots + (names.map (·.utf8ByteSize + 1)).sum ≤
        Disk.maxPathBytes)
    (hFollow :
      capTree.follow ["data"] names =
        .ok (["data"] ++ names)) :
    capTree.locate (Session.spelling dots names) =
      .ok (["data"] ++ names) := by
  have hFolder : capTree.node? ["data"] = some .folder := by
    decide
  exact
    Session.locate_spelling_names rfl hFolder hNames hSize
      hFollow

/- The dots lead to the directory. -/
theorem locate_longDir
    (hSize : 4 + 2 * dots ≤ Disk.maxPathBytes) :
    capTree.locate (Path.ofText (longDir dots)) =
      .ok ["data"] := by
  rw [ofText_longDir]
  exact locate_behind_dots (by decide) hSize rfl

/- The catalog is loaded, if its files are in reach. -/
theorem exists_load_longDir
    (hFiles : 38 + 2 * dots ≤ Disk.maxPathBytes) :
    ∃ catalog,
      Catalog.load capTree (Path.ofText (longDir dots)) =
        .ok catalog := by
  have hLoads :
      (Catalog.load capTree (Session.spelling 0 [])).isOk =
        true := by
    decide +kernel
  have hSame : ∀ names : Location,
      Disk.IsPlace names →
        (names.map (·.utf8ByteSize + 1)).sum ≤ 34 →
          capTree.follow ["data"] names =
              .ok (["data"] ++ names) →
            capTree.locate
                ((Session.spelling 0 []).below names) =
              capTree.locate
                ((Session.spelling dots []).below names) := by
    intro names hNames hSize hFollow
    rw [Session.below_spelling _ hNames,
      Session.below_spelling _ hNames,
      locate_behind_dots hNames (by omega) hFollow,
      locate_behind_dots hNames (by omega) hFollow]
  rw [ofText_longDir]
  cases hLoad : Catalog.load capTree (Session.spelling 0 []) with
  | error e =>
      rw [hLoad] at hLoads
      cases hLoads
  | ok catalog =>
      refine ⟨catalog, Catalog.load_of_locate ?_ hLoad⟩
      simp only [Catalog.sources, List.forall_mem_cons]
      refine ⟨?_, ?_, ?_, ?_, ?_, by simp⟩ <;>
        exact hSame _ (by decide) (by decide) (by decide)

/- On the first tree, all is in reach. -/
theorem reaches_longDir
    (hFiles : 38 + 2 * dots ≤ Disk.maxPathBytes) :
    Reaches capTree ["data"] (Path.ofText (longDir dots)) := by
  rw [ofText_longDir]
  apply
    Backup.reaches_of_keys
      (fun root => Session.spelling dots [root])
      fun root => Session.searched?_spelling dots
  intro root hRoot x hKey
  have hBelow :
      (⟨(Session.spelling dots [root]).segments ++
          x.drop (["data"].length + 1)⟩ : Path) =
        Session.spelling dots (root :: x.drop 2) := by
    simp [Session.spelling]
  have hSizes :
      ∀ root ∈ Backup.roots,
        ∀ x ∈ Assoc.keys capTree.nodes,
          ((root :: x.drop 2).map
            (·.utf8ByteSize + 1)).sum ≤ 34 := by
    decide
  have hSize := hSizes root hRoot x hKey
  rw [hBelow, Session.utf8ByteSize_spelling]
  omega

/- So the run succeeds there. -/
theorem code_longDir
    (hFiles : 38 + 2 * dots ≤ Disk.maxPathBytes) :
    ((hideNothing (longDir dots)).execute .sound
      capTree).code = 0 := by
  rcases capTree_pristine with ⟨hTree, hPristine, _⟩
  have hCheck : (hideNothing (longDir dots)).check = false := rfl
  rcases execute_of_pristine .sound hTree hPristine hCheck
      (locate_longDir (by omega)) (reaches_longDir hFiles) with
    ⟨events, hExecute⟩
  rcases exists_load_longDir hFiles with ⟨catalog, hLoad⟩
  have hSource :
      DataFile.readText capTree (Path.ofText "nothing") =
        .ok "" := by
    decide
  have hDone :
      (proceed .sound capTree
        (hideNothing (longDir dots))).failure = none :=
    failure_proceed_of_empty hLoad hSource
  rw [hExecute]
  simp only [Run.after, Run.code, hDone]

/- Once the item is hidden, its copy may be out of reach. -/
theorem code_longDir_hidden
    (hFiles : 38 + 2 * dots ≤ Disk.maxPathBytes)
    (hCopy : Disk.maxPathBytes < 51 + 2 * dots) :
    ((hideNothing (longDir dots)).execute .sound
      hiddenTree).code = 1 := by
  have hLocal : "local" ∈ Backup.roots := by decide
  have hTop :
      capTree.locate (Session.spelling dots ["local"]) =
        .ok (["data"] ++ ["local"]) := by
    have hSize :
        (["local"].map (·.utf8ByteSize + 1)).sum = 6 := by
      decide
    exact
      locate_behind_dots (by decide) (by omega) (by decide)
  have hNames :
      ["lng", "strings", "item-names.json.d2lootfilter"] ≠
        [] := by
    simp
  have hNode :
      hiddenTree.node?
          (["data"] ++ ["local"] ++
            ["lng", "strings",
              "item-names.json.d2lootfilter"]) =
        some (.file capNames.toUTF8) := by
    decide
  have hKept := confined_hiddenTree.kept
  have hMem :=
    Backup.mem_candidates_of_node? hKept.tree
      (Session.searched?_spelling dots hLocal)
      (hKept.folders.locate_eq_ok hTop) hNames hNode
  apply code_execute_of_failure .sound rfl
  unfold hideNothing
  rw [ofText_longDir]
  apply Backup.failure_restoreRoots_cons
  apply Backup.failure_restoreEach hMem
  · right
    rw [Backup.endsInBackup_append _ hNames]
    decide
  · have hPath :
        (⟨(Session.spelling dots ["local"]).segments ++
            ["lng", "strings",
              "item-names.json.d2lootfilter"]⟩ : Path) =
          Session.spelling dots
            ["local", "lng", "strings",
              "item-names.json.d2lootfilter"] := by
      simp [Session.spelling]
    have hSize :
        (["local", "lng", "strings",
            "item-names.json.d2lootfilter"].map
          (·.utf8ByteSize + 1)).sum = 47 := by
      decide
    rw [hPath, Session.utf8ByteSize_spelling, hSize]
    omega

end LongDir

/- Behind a dot with two slashes, no copy is found. -/
theorem disk_hideNothing_dotted
    {disk : Disk}
    (hSource :
      DataFile.readText disk (Path.ofText "nothing") =
        .ok "") :
    ((hideNothing ".//data").execute .sound disk).disk =
      disk := by
  have hNone :
      ∀ root ∈ Backup.roots,
        Backup.searched?
            ⟨(Path.ofText ".//data").segments ++ [root]⟩ =
          none := by
    decide
  have hRestored :
      Backup.restoreAll disk (Path.ofText ".//data") =
        ⟨disk, [], none⟩ :=
    Backup.restoreRoots_of_not_searched hNone
  have hCheck : (hideNothing ".//data").check = false := rfl
  have hDone :
      (Backup.restoreAll disk
        (Path.ofText ".//data")).failure = none := by
    rw [hRestored]
  rcases execute_of_restored .sound hCheck hDone with
    ⟨events, hExecute⟩
  have hProceed :
      (proceed .sound disk (hideNothing ".//data")).disk =
        disk :=
    disk_proceed_of_empty hSource
  rw [hExecute]
  dsimp only [Run.after, hideNothing]
  rw [hRestored]
  exact hProceed

------------------------------------------------------------
-- Copies That Are Broken Off
------------------------------------------------------------

/- The place of the table of names. -/
def capPlace : Location :=
  ["data", "local", "lng", "strings"] ++ ["item-names.json"]

/- The tree with what is left of a copy of the table. -/
def tornTree : Disk :=
  capTree.put (Backup.copyPlace capPlace) (.file "[".toUTF8)

/- The tree with that in place of the table. -/
def brokenTree : Disk :=
  capTree.put capPlace (.file "[".toUTF8)

/- A copy that is broken off is as good as a broken table. -/
theorem confined_tornTree :
    Confined brokenTree ["data"] tornTree := by
  have hUnder : Backup.UnderRoot ["data"] capPlace :=
    ⟨"local", by decide, ["lng", "strings", "item-names.json"],
      by simp, rfl⟩
  rcases capTree_pristine with ⟨hTree, hPristine, _⟩
  have hFile :
      capTree.node? capPlace = some (.file capNames.toUTF8) := by
    decide
  refine
    { kept :=
        (Kept.refl hTree hPristine).putCopy hPristine hUnder
          (by decide) hFile (by decide) (by decide) _
      outside := ?_
      index := by decide }
  intro l hOutside
  have hNe : l ≠ capPlace := by
    rintro rfl
    exact hOutside hUnder
  have hCopyNe : l ≠ Backup.copyPlace capPlace := by
    rintro rfl
    exact hOutside (Backup.underRoot_copyPlace_iff.mpr hUnder)
  unfold tornTree brokenTree
  rw [Disk.node?_put (by decide), if_neg hCopyNe,
    Disk.node?_put (by decide), if_neg hNe]

/- So the next run does not get beyond reading it. -/
theorem code_hideCap_tornTree :
    (hideCap.execute .sound tornTree).code = 1 := by
  have hReaches :
      Reaches tornTree ["data"] (Path.ofText hideCap.dir) :=
    Backup.reaches_of_keys (fun root => ⟨["data", root]⟩)
      (by decide) (by decide)
  have hTree : brokenTree.WellFormed :=
    ⟨by decide, by decide, by decide, by decide⟩
  have hPristine : Pristine brokenTree ["data"] :=
    Backup.pristine_of_keys (by decide)
  rcases confined_tornTree.same_restoreAll hTree hPristine
      (by decide) hReaches with
    ⟨hDone, hSame⟩
  rcases execute_of_restored .sound rfl hDone with
    ⟨events, hExecute⟩
  have hRun := sameRun_proceed hSame .sound hideCap
  have hCode :
      (proceed .sound brokenTree hideCap).code = 1 := by
    decide +kernel
  rw [hExecute]
  unfold Run.code Run.after at *
  rw [hRun.failure]
  exact hCode

/-
  Not every spelling of the data directory serves.  Under too
  long a one, copies cannot be moved back, and the run fails.
  Behind a dot with two slashes, no copy is found, and the item
  stays hidden.  And a copy that was broken off takes the place
  of the table.
-/
theorem execute_afterCalls_missed :
    (capTree.WellFormed ∧ Pristine capTree ["data"] ∧
        AssetsInside capTree ["data"]) ∧
      (∀ device,
        (hideCall device).ActsOn capTree ["data"]) ∧
      afterCalls capTree [hideCall .sound] = hiddenTree ∧
      capTree.locate (Path.ofText "nothing") =
        .ok ["nothing"] ∧
      (capTree.locate (Path.ofText (longDir 2025)) =
          .ok ["data"] ∧
        ((hideNothing (longDir 2025)).execute .sound
          capTree).code = 0 ∧
        ((hideNothing (longDir 2025)).execute .sound
          hiddenTree).code = 1) ∧
      capTree.locate (Path.ofText ".//data") = .ok ["data"] ∧
      ¬ Disk.Same
        ((hideNothing ".//data").execute .sound hiddenTree).disk
        ((hideNothing ".//data").execute .sound capTree).disk ∧
      afterCalls capTree [hideCall Session.tornDevice] =
          tornTree ∧
        (hideCap.execute .sound capTree).code = 0 ∧
        (hideCap.execute .sound tornTree).code = 1 := by
  have hSource :
      DataFile.readText capTree (Path.ofText "nothing") =
          .ok "" ∧
        DataFile.readText hiddenTree (Path.ofText "nothing") =
          .ok "" := by
    decide
  rcases execute_hideCap .sound with ⟨events, hExecute⟩
  have hCode :
      (proceed .sound capTree hideCap).code = 0 := by
    decide +kernel
  refine
    ⟨capTree_pristine, hideCall_actsOn,
      afterCalls_hideCall_sound, by decide,
      ⟨locate_longDir (by decide), code_longDir (by decide),
        code_longDir_hidden (by decide) (by decide)⟩,
      by decide, ?_,
      afterCalls_hideCall Session.tornDevice
        (by decide +kernel),
      by rw [hExecute]; exact hCode, code_hideCap_tornTree⟩
  rw [disk_hideNothing_dotted hSource.1,
    disk_hideNothing_dotted hSource.2]
  intro hSame
  have hNames :=
    hSame.node
      ["data", "local", "lng", "strings", "item-names.json"]
  revert hNames
  decide

end CommandLine

end LootFilter
