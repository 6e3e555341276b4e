import LootFilter.Proofs.Backup.Restore
import LootFilter.Proofs.Backup.Torn
import LootFilter.Proofs.Command.Stages

/-
  No session loses an original, unless its copy was broken off.

  Whatever is done to a data directory, in whatever order and
  whether it succeeds, fails or is stopped on the way, the
  files of the first tree are kept: a session's invariant is
  that the tree keeps them and that the open writer names
  documents only.  So from every tree that a session leads to,
  all of them can be brought back.  A file whose copy was
  broken off comes back as that copy.

  Main declarations:
    * `Backup.Steady.restoreUntil`
    * `Action.ActsOn`
    * `Action.Tears`
    * `Session.Safe`
    * `Session.Safe.perform`
    * `Session.keptBut_run`
    * `Session.originals_kept`
-/

namespace LootFilter

open Backup (Kept KeptBut Marred Pristine Copied Reaches)
open Backup (Restored)
open CommandLine (Call)

variable {before now : Disk} {dir : Location} {path : Path}

------------------------------------------------------------
-- Restoring
------------------------------------------------------------

/- Restoring that is stopped keeps what restoring does. -/
theorem Backup.Steady.restoreUntil
    {P : Disk → Prop}
    (hSteady : Steady before dir P)
    (hTree : before.WellFormed)
    (hPristine : Pristine before dir)
    (hDirectory : before.locate path = .ok dir)
    (hNow : P now)
    (halt : Halt) :
    P (restoreUntil halt now path) := by
  have hWhole :=
    hSteady.restoreRoots hTree hPristine hDirectory
      (List.take_subset halt.whole roots) hNow
  unfold Backup.restoreUntil
  dsimp only
  split
  · rename_i root _ hRoot
    exact
      hSteady.restoreRoot hTree hPristine hDirectory
        (List.mem_of_getElem? hRoot) hWhole
        (List.take_subset halt.count _)
  · exact hWhole

section KeptBut

variable {P : Location → Prop}

/- Restoring keeps the files, up to any failure. -/
theorem Backup.KeptBut.restoreAll
    (hKept : KeptBut P before dir now)
    (hTree : before.WellFormed)
    (hPristine : Pristine before dir)
    (hDirectory : before.locate path = .ok dir) :
    KeptBut P before dir (Backup.restoreAll now path).disk := by
  rcases hKept with ⟨original, hMarred, hNow⟩
  exact
    ⟨original, hMarred,
      hNow.restoreAll (hMarred.wellFormed hTree)
        (hMarred.pristine hPristine)
        (hMarred.sameFolders.locate_eq_ok hDirectory)⟩

/- A file comes back as what its copy holds. -/
theorem Backup.KeptBut.node?_restoreAll
    (hKept : KeptBut P before dir now)
    (hTree : before.WellFormed)
    (hPristine : Pristine before dir)
    (hDirectory : before.locate path = .ok dir)
    (hReaches : Reaches now dir path)
    {l : Location}
    (hCopied : Copied now dir l) :
    (Backup.restoreAll now path).disk.node? l =
      now.node? (Backup.copyPlace l) := by
  rcases hKept with ⟨original, hMarred, hNow⟩
  have hPristineOriginal := hMarred.pristine hPristine
  have hRestored :=
    hNow.restored (hMarred.wellFormed hTree) hPristineOriginal
      (hMarred.sameFolders.locate_eq_ok hDirectory) hReaches
  rcases hNow.bytes_of_copied hPristineOriginal hCopied with
    ⟨bytes, hFile, hCopy, _⟩
  rw [hRestored.original l hCopied.1, hFile, hCopy]

/- Restoring that is stopped keeps the files, too. -/
theorem Backup.KeptBut.restoreUntil
    (hKept : KeptBut P before dir now)
    (hTree : before.WellFormed)
    (hPristine : Pristine before dir)
    (hDirectory : before.locate path = .ok dir)
    (halt : Halt) :
    KeptBut P before dir
      (Backup.restoreUntil halt now path) := by
  rcases hKept with ⟨original, hMarred, hNow⟩
  have hTreeOriginal := hMarred.wellFormed hTree
  have hPristineOriginal := hMarred.pristine hPristine
  exact
    ⟨original, hMarred,
      (Backup.steady_kept hTreeOriginal
        hPristineOriginal).restoreUntil hTreeOriginal
          hPristineOriginal
          (hMarred.sameFolders.locate_eq_ok hDirectory) hNow
          halt⟩

------------------------------------------------------------
-- Writing
------------------------------------------------------------

/- Finishing a writer keeps the files, wherever it stops. -/
theorem Backup.KeptBut.finish
    (hKept : KeptBut P before dir now)
    (hPristine : Pristine before dir)
    {w : Writer}
    (hWriter : w.NamesDocuments)
    {device : Device}
    (hTorn : ∀ l, device.Tears before l → P l) :
    KeptBut P before dir (w.finish device now).disk := by
  apply hKept.writeFiles hPristine hTorn
  intro entry hMem
  exact Writer.isDocument_of_mem_files hWriter hMem

/- Whether a call that runs does so on the data directory. -/
def CommandLine.Call.ActsOn
    (before : Disk)
    (dir : Location)
    (call : Call) : Prop :=
  ∀ options,
    Request.ofArguments call.args = .run options →
      before.locate (Path.ofText options.dir) = .ok dir

/- A call keeps the files, wherever it stops. -/
theorem Backup.KeptBut.call
    (hKept : KeptBut P before dir now)
    (hTree : before.WellFormed)
    (hPristine : Pristine before dir)
    {call : Call}
    (hCall : call.ActsOn before dir)
    (hTorn : ∀ l, call.device.Tears before l → P l) :
    KeptBut P before dir (call.after now) := by
  have hStep := CommandLine.callStep now call
  generalize call.after now = next at hStep ⊢
  cases hStep with
  | idle => exact hKept
  | stopped hRequest halt =>
      exact
        hKept.restoreUntil hTree hPristine (hCall _ hRequest)
          halt
  | restored hRequest =>
      exact hKept.restoreAll hTree hPristine (hCall _ hRequest)
  | written hRequest hRestored hStaged =>
      subst hRestored
      exact
        (hKept.restoreAll hTree hPristine
          (hCall _ hRequest)).finish hPristine
            (CommandLine.namesDocuments_of_staged? hStaged)
            hTorn

end KeptBut

------------------------------------------------------------
-- Sessions
------------------------------------------------------------

/-
  Whether what an action restores is the data directory.  A
  writer may be opened for any directory.
-/
def Action.ActsOn
    (before : Disk)
    (dir : Location) : Action → Prop
| .restore path _ => before.locate path = .ok dir
| .command call => call.ActsOn before dir
| _ => True

/- Whether an action breaks off copying the file at a place. -/
def Action.Tears
    (before : Disk)
    (l : Location) : Action → Prop
| .finish device => device.Tears before l
| .command call => call.device.Tears before l
| _ => False

namespace Session

/- The invariant of sessions. -/
structure Safe
    (P : Location → Prop)
    (before : Disk)
    (dir : Location)
    (s : Session) : Prop where
  kept : KeptBut P before dir s.disk
  writer : ∀ w, s.writer = some w → w.NamesDocuments

variable {P : Location → Prop} {s : Session}

/- A session starts safely from a pristine tree. -/
theorem safe_start
    (hTree : before.WellFormed)
    (hPristine : Pristine before dir) :
    Safe P before dir (start before) where
  kept := (Kept.refl hTree hPristine).keptBut
  writer := by
    intro w hOpen
    cases hOpen

/- Staging more into the open writer is safe. -/
theorem Safe.stage
    (hSafe : Safe P before dir s)
    {w : Writer}
    (hOpen : s.writer = some w)
    (edits : List Edit) :
    Safe P before dir
      { s with
        writer := some (w.performAll s.disk edits).1 } where
  kept := hSafe.kept
  writer := by
    intro next hNext
    cases hNext
    exact (hSafe.writer w hOpen).performAll s.disk edits

/- Each action keeps the invariant. -/
theorem Safe.perform
    (hSafe : Safe P before dir s)
    (hTree : before.WellFormed)
    (hPristine : Pristine before dir)
    {action : Action}
    (hAction : action.ActsOn before dir)
    (hTorn : ∀ l, action.Tears before l → P l) :
    Safe P before dir (s.perform action) := by
  cases action with
  | openWriter path catalog =>
      refine ⟨hSafe.kept, ?_⟩
      intro w hOpen
      cases hOpen
      exact Writer.namesDocuments_new path catalog
  | stage rule =>
      unfold Session.perform
      cases hOpen : s.writer with
      | none => simpa only [hOpen] using hSafe
      | some w => exact hSafe.stage hOpen rule.edits
  | stageAll rules =>
      unfold Session.perform
      cases hOpen : s.writer with
      | none => simpa only [hOpen] using hSafe
      | some w =>
          exact hSafe.stage hOpen (rules.flatMap Rule.edits)
  | finish device =>
      unfold Session.perform
      cases hOpen : s.writer with
      | none => simpa only [hOpen] using hSafe
      | some w =>
          exact
            ⟨hSafe.kept.finish hPristine
              (hSafe.writer w hOpen) hTorn, by simp⟩
  | restore path halt =>
      cases halt with
      | none =>
          exact
            ⟨hSafe.kept.restoreAll hTree hPristine hAction,
              hSafe.writer⟩
      | some halt =>
          exact
            ⟨hSafe.kept.restoreUntil hTree hPristine hAction
              halt, hSafe.writer⟩
  | command call =>
      exact
        ⟨hSafe.kept.call hTree hPristine hAction hTorn,
          hSafe.writer⟩

/- So does every run. -/
theorem Safe.run
    (hSafe : Safe P before dir s)
    (hTree : before.WellFormed)
    (hPristine : Pristine before dir)
    {actions : List Action}
    (hActions :
      ∀ action ∈ actions, action.ActsOn before dir)
    (hTorn :
      ∀ action ∈ actions, ∀ l, action.Tears before l → P l) :
    Safe P before dir (s.run actions) := by
  induction actions generalizing s with
  | nil => exact hSafe
  | cons action rest ih =>
      rw [List.forall_mem_cons] at hActions hTorn
      exact
        ih
          (hSafe.perform hTree hPristine hActions.1 hTorn.1)
          hActions.2 hTorn.2

/- So a session on a pristine tree keeps the first files. -/
theorem keptBut_run
    (hTree : before.WellFormed)
    (hPristine : Pristine before dir)
    {actions : List Action}
    (hActions :
      ∀ action ∈ actions, action.ActsOn before dir)
    (hTorn :
      ∀ action ∈ actions, ∀ l, action.Tears before l → P l) :
    KeptBut P before dir ((start before).run actions).disk :=
  ((safe_start hTree hPristine).run hTree hPristine hActions
    hTorn).kept

/-
  No original is lost, unless its copy was broken off.  In
  every tree that a session on a pristine data directory leads
  to, the files of the first tree are kept, and restoring
  under a spelling that reaches everything brings all of them
  back: as they were, but for those whose copies were broken
  off.
-/
theorem originals_kept
    (hTree : before.WellFormed)
    (hPristine : Pristine before dir)
    {actions : List Action}
    (hActions :
      ∀ action ∈ actions, action.ActsOn before dir)
    {now : Disk}
    (hNow : ((start before).run actions).disk = now) :
    ∃ original,
      Marred
          (fun l => ∃ action ∈ actions, action.Tears before l)
          before original ∧
        Kept original dir now ∧
        ∀ path,
          before.locate path = .ok dir →
            Reaches now dir path →
              Restored original now dir path
                (Backup.restoreAll now path) := by
  subst hNow
  have hKeptBut :
      KeptBut
        (fun l => ∃ action ∈ actions, action.Tears before l)
        before dir ((start before).run actions).disk :=
    keptBut_run hTree hPristine hActions
      fun action hMem l hTears => ⟨action, hMem, hTears⟩
  rcases hKeptBut with ⟨original, hMarred, hKept⟩
  refine ⟨original, hMarred, hKept, ?_⟩
  intro path hDirectory hReaches
  exact
    hKept.restored (hMarred.wellFormed hTree)
      (hMarred.pristine hPristine)
      (hMarred.sameFolders.locate_eq_ok hDirectory) hReaches

------------------------------------------------------------
-- A Small Session
------------------------------------------------------------

/- A data directory with one file. -/
def smallTree : Disk :=
  ⟨[(["data"], .folder),
    (["data", "local"], .folder),
    (["data", "local", "lng"], .folder),
    (["data", "local", "lng", "strings"], .folder),
    (["data", "local", "lng", "strings", "item-names.json"],
      .file "[]".toUTF8)], []⟩

/- It is a pristine tree. -/
theorem smallTree_pristine :
    smallTree.WellFormed ∧ Pristine smallTree ["data"] :=
  ⟨⟨by decide +kernel, by decide +kernel, by decide +kernel,
    by decide +kernel⟩,
    Backup.pristine_of_keys (by decide +kernel)⟩

/- Hide a base type and write the change to the files. -/
def smallSession (device : Device) : List Action :=
  [ .openWriter ⟨["data"]⟩ Catalog.empty,
    .stage
      ⟨1, .hideItem, some (BaseSet.empty.insert "cap"), none,
        []⟩,
    .finish device ]

/- It acts on the data directory. -/
theorem smallSession_actsOn (device : Device) :
    ∀ action ∈ smallSession device,
      action.ActsOn smallTree ["data"] := by
  simp [smallSession, Action.ActsOn]

/- The data directory after that. -/
def smallResult : Disk :=
  ((start smallTree).run (smallSession .sound)).disk

/- No copy is broken off on the way. -/
theorem not_tears_sound (l : Location) :
    ¬ ∃ action ∈ smallSession .sound,
      action.Tears smallTree l := by
  simp [smallSession, Action.Tears, Device.Tears,
    Device.sound, Transfer.IsStopped]

/- The file can be brought back. -/
theorem originals_kept_small :
    Kept smallTree ["data"] smallResult ∧
      Restored smallTree smallResult ["data"] ⟨["data"]⟩
        (Backup.restoreAll smallResult ⟨["data"]⟩) := by
  have hReaches :
      Reaches smallResult ["data"] ⟨["data"]⟩ :=
    Backup.reaches_of_keys (fun root => ⟨["data", root]⟩)
      (by decide +kernel) (by decide +kernel)
  have hRun :
      ((start smallTree).run (smallSession .sound)).disk =
        smallResult := rfl
  rcases originals_kept smallTree_pristine.1
      smallTree_pristine.2 (smallSession_actsOn .sound) hRun
    with
    ⟨original, hMarred, hKept, hRestored⟩
  cases hMarred.eq_before not_tears_sound
  exact
    ⟨hKept, hRestored ⟨["data"]⟩ (by decide +kernel) hReaches⟩

/- A spelling with a slash behind the dot in front. -/
def dottedSpelling : Path :=
  ⟨[".", "", "data"]⟩

/- A spelling with dots behind, and names behind the dots. -/
def spelling (dots : Nat) (names : List String) : Path :=
  ⟨"data" :: (List.replicate dots "." ++ names)⟩

/- The length of such a spelling. -/
theorem utf8ByteSize_spelling
    (dots : Nat)
    (names : List String) :
    (spelling dots names).text.utf8ByteSize =
      4 + 2 * dots + (names.map (·.utf8ByteSize + 1)).sum := by
  have hSome : (spelling dots names).segments ≠ [] := by
    simp [spelling]
  have hSize := Disk.utf8ByteSize_text hSome
  have hData : "data".utf8ByteSize = 4 := by decide
  have hDot : ".".utf8ByteSize = 1 := by decide
  simp only [spelling, List.map_cons, List.sum_cons,
    List.map_append, List.sum_append, List.map_replicate,
    List.sum_replicate_nat, hData, hDot] at hSize
  unfold spelling
  omega

/- It leads to where the names do, if it is not too long. -/
theorem locate_spelling_names
    {d : Disk}
    (hHome : d.home = [])
    (hFolder : d.node? ["data"] = some .folder)
    {dots : Nat}
    {names : List String}
    (hNames : Disk.IsPlace names)
    (hSize :
      4 + 2 * dots + (names.map (·.utf8ByteSize + 1)).sum ≤
        Disk.maxPathBytes)
    {l : Location}
    (hFollow : d.follow ["data"] names = .ok l) :
    d.locate (spelling dots names) = .ok l := by
  apply Disk.locate_eq_ok_iff.mpr
  refine ⟨⟨?_, ?_, by simp [spelling], ?_⟩, ?_⟩
  · intro segment hMem
    simp only [spelling, List.mem_cons, List.mem_append,
      List.mem_replicate] at hMem
    rcases hMem with rfl | ⟨_, rfl⟩ | hName
    · decide
    · decide
    · exact (hNames segment hName).2.2
  · rw [utf8ByteSize_spelling]
    exact hSize
  · simp [spelling]
  · have hStart : d.start (spelling dots names) = [] := by
      simp [Disk.start, Path.IsAbsolute, spelling, hHome]
    rw [hStart]
    apply Disk.follow_cons_eq_ok_iff.mpr
    refine ⟨rfl, by decide, ?_⟩
    exact
      (Disk.follow_replicate_dot hFolder dots names).trans
        hFollow

/- So it names the data directory. -/
theorem locate_spelling
    {dots : Nat}
    (hSize : 4 + 2 * dots ≤ Disk.maxPathBytes) :
    smallTree.locate (spelling dots []) = .ok ["data"] :=
  locate_spelling_names rfl (by decide +kernel)
    (by decide) hSize rfl

/- Names below such a spelling are written behind the dots. -/
theorem below_spelling
    (dots : Nat)
    {names : List String}
    (hNames : Disk.IsPlace names) :
    (spelling dots []).below names = spelling dots names := by
  have hRelative : ¬ (⟨names⟩ : Path).IsAbsolute := by
    rintro ⟨hFirst, _⟩
    have hEmpty := hNames "" (List.mem_of_mem_head? hFirst)
    exact hEmpty.1.1 rfl
  have hLast :
      (spelling dots []).segments.getLast? ≠ some "" := by
    intro hEmpty
    have hMem := List.mem_of_mem_getLast? hEmpty
    simp [spelling] at hMem
  unfold Path.below Path.join
  rw [if_neg hRelative, Path.stem, if_neg hLast]
  simp [spelling]

/- A root is searched for under the same spelling. -/
theorem searched?_spelling
    (dots : Nat)
    {root : String}
    (hRoot : root ∈ Backup.roots) :
    Backup.searched? ⟨(spelling dots []).segments ++ [root]⟩ =
      some (spelling dots [root]) := by
  have hSome := (Backup.isName_of_mem_roots hRoot).1.1
  simp [Backup.searched?, spelling, Path.IsAbsolute, hSome]

/-
  Restoring fails if the path of a folder is too long under
  the spelling.
-/
theorem failure_restoreAll_spelling
    {dots : Nat}
    (hRoot : 10 + 2 * dots ≤ Disk.maxPathBytes)
    (hFolder : Disk.maxPathBytes < 22 + 2 * dots)
    {now : Disk}
    (hKept : Kept smallTree ["data"] now) :
    (Backup.restoreAll now (spelling dots [])).failure ≠
      none := by
  have hLocal : "local" ∈ Backup.roots := by decide
  have hDirectory :
      smallTree.locate (spelling dots []) = .ok ["data"] :=
    locate_spelling (by omega)
  have hSearched := searched?_spelling dots hLocal
  have hSize :
      (spelling dots ["local"]).text.utf8ByteSize ≤
        Disk.maxPathBytes := by
    have hName : "local".utf8ByteSize = 5 := by decide
    simp only [utf8ByteSize_spelling, List.map_cons,
      List.map_nil, List.sum_cons, List.sum_nil, hName]
    omega
  have hTop :
      smallTree.locate (spelling dots ["local"]) =
        .ok ["data", "local"] :=
    Disk.locate_eq_ok_iff.mpr
      ⟨Backup.isSpelled_searched
          (Disk.locate_eq_ok_iff.mp hDirectory).1 hLocal
          hSearched hSize,
        (Backup.follow_searched_iff hDirectory hLocal
          hSearched).mpr ⟨by decide +kernel, rfl⟩⟩
  have hNames : ["lng", "strings"] ≠ [] := by simp
  apply hKept.failure_restoreRoots smallTree_pristine.1
    smallTree_pristine.2 hDirectory (List.Subset.refl _)
    hLocal hSearched hTop hNames (by decide +kernel)
  have hLong :
      (⟨(spelling dots ["local"]).segments ++
          ["lng", "strings"]⟩ : Path) =
        spelling dots ["local", "lng", "strings"] := by
    simp [spelling]
  have hSizes :
      "local".utf8ByteSize = 5 ∧ "lng".utf8ByteSize = 3 ∧
        "strings".utf8ByteSize = 7 := by
    decide
  rw [hLong]
  simp only [utf8ByteSize_spelling, List.map_cons,
    List.map_nil, List.sum_cons, List.sum_nil, hSizes]
  omega

/- A device that runs full while a copy is made. -/
def tornDevice : Device :=
  ⟨fun _ _ => .stopped .noSpace "[".toUTF8, fun _ _ => .whole⟩

/- The data directory after that. -/
def tornResult : Disk :=
  ((start smallTree).run (smallSession tornDevice)).disk

/- The file of the data directory. -/
def smallPlace : Location :=
  ["data", "local", "lng", "strings", "item-names.json"]

/- The file is brought back as what its copy holds. -/
theorem node?_restoreAll_tornResult :
    (Backup.restoreAll tornResult ⟨["data"]⟩).disk.node?
        smallPlace =
      some (.file "[".toUTF8) := by
  have hReaches :
      Reaches tornResult ["data"] ⟨["data"]⟩ :=
    Backup.reaches_of_keys (fun root => ⟨["data", root]⟩)
      (by decide +kernel) (by decide +kernel)
  have hCopied : Copied tornResult ["data"] smallPlace :=
    ⟨⟨"local", by decide,
      ["lng", "strings", "item-names.json"], by simp, rfl⟩,
      by decide +kernel⟩
  have hKeptBut :
      KeptBut (fun _ => True) smallTree ["data"] tornResult :=
    keptBut_run smallTree_pristine.1 smallTree_pristine.2
      (smallSession_actsOn tornDevice) fun _ _ _ _ => trivial
  have hCopy :
      tornResult.node? (Backup.copyPlace smallPlace) =
        some (.file "[".toUTF8) := by
    decide +kernel
  rw [← hCopy]
  exact
    hKeptBut.node?_restoreAll smallTree_pristine.1
      smallTree_pristine.2 (by decide +kernel) hReaches hCopied

/-
  Not every spelling of the data directory serves.  Restoring
  fails below a spelling that is too long, and finds nothing
  behind a dot with two slashes.  And restoring brings back
  what is left of a copy that was broken off.
-/
theorem originals_missed :
    (smallTree.WellFormed ∧ Pristine smallTree ["data"]) ∧
      (∀ action ∈ smallSession .sound,
        action.ActsOn smallTree ["data"]) ∧
      Copied smallResult ["data"] smallPlace ∧
      (smallTree.locate (spelling 2040 []) = .ok ["data"] ∧
        (Backup.restoreAll smallResult
          (spelling 2040 [])).failure ≠ none) ∧
      smallTree.locate dottedSpelling = .ok ["data"] ∧
        Backup.restoreAll smallResult dottedSpelling =
          ⟨smallResult, [], none⟩ ∧
      (smallTree.node? smallPlace =
          some (.file "[]".toUTF8) ∧
        ((start smallTree).run
            (smallSession tornDevice ++
              [.restore ⟨["data"]⟩ none])).disk.node?
          smallPlace = some (.file "[".toUTF8)) := by
  have hKeptBut :
      KeptBut (fun _ => False) smallTree ["data"] smallResult :=
    keptBut_run smallTree_pristine.1 smallTree_pristine.2
      (smallSession_actsOn .sound)
      fun action hMem l hTears =>
        not_tears_sound l ⟨action, hMem, hTears⟩
  have hKept : Kept smallTree ["data"] smallResult :=
    hKeptBut.toKept fun _ => id
  refine
    ⟨smallTree_pristine, smallSession_actsOn .sound, ?_,
      ⟨?_, ?_⟩, by decide +kernel, by decide +kernel,
      by decide +kernel, node?_restoreAll_tornResult⟩
  · exact
      ⟨⟨"local", by decide,
        ["lng", "strings", "item-names.json"], by simp, rfl⟩,
        by decide +kernel⟩
  · exact locate_spelling (by decide)
  · exact
      failure_restoreAll_spelling (by decide) (by decide) hKept

end Session

end LootFilter
