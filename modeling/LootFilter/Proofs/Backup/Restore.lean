import LootFilter.Proofs.Backup.InOrder
import LootFilter.Proofs.Backup.MoveBack

/-
  Restoring gives every file back as it was at first.

  Restoring comes to moving copies back.  Whatever a spelling
  reaches, only copies are moved, so the files are kept; and
  if it reaches everything, all copies are moved.

  Main declarations:
    * `Backup.Kept.restoreOne_cases`
    * `Backup.Steady.restoreAll`
    * `Backup.Kept.restoreAll`
    * `Backup.Kept.movesBack_restoreAll`
    * `Backup.Kept.restored`
-/

namespace LootFilter

namespace Backup

open Disk (WellFormed SameFolders)

variable {before now next : Disk} {dir f l : Location}
variable {p path : Path}

------------------------------------------------------------
-- One Candidate
------------------------------------------------------------

/-
  Restoring a candidate below the roots moves a copy back, or
  changes nothing.
-/
theorem Kept.restoreOne_cases
    (hKept : Kept before dir now)
    (hTree : before.WellFormed)
    (hPristine : Pristine before dir)
    (hUnder :
      ∀ m, before.locate p = .ok m → UnderRoot dir m)
    {restored : Option Path}
    (hRestore :
      Backup.restoreOne now p = .ok (next, restored)) :
    next = now ∨
      ∃ f, Copied now dir f ∧ next = Backup.moveBack now f := by
  cases hName : endsInBackup p.segments with
  | false =>
      rw [restoreOne_of_not_copy hName] at hRestore
      cases hRestore
      exact Or.inl rfl
  | true =>
      cases hRename :
          now.rename p (p.mapName restoredName) with
      | error e =>
          unfold endsInBackup at hName
          simp [Backup.restoreOne, hName, hRename] at hRestore
      | ok moved =>
          rcases Disk.exists_node_of_rename hRename with
            ⟨m, n, hLocate, hNode⟩
          -- The spelling may be odd, but the place is that of a copy.
          rcases exists_copyPlace_of_locate hName hLocate with
            ⟨g, rfl, _⟩
          have hCopied : Copied now dir g := by
            constructor
            · apply underRoot_copyPlace_iff.mp
              apply hUnder
              exact hKept.folders.symm.locate_eq_ok hLocate
            · simp [hNode]
          rcases restoreOne_of_movable
              (hKept.movable hTree hPristine hCopied) hName
              hLocate with
            ⟨target, hMoved, _⟩
          rw [hMoved] at hRestore
          cases hRestore
          exact Or.inr ⟨g, hCopied, rfl⟩

------------------------------------------------------------
-- What Moving Copies Back Keeps
------------------------------------------------------------

/-
  Whether a property of trees that keep the first files stays
  true when a copy is moved back.
-/
structure Steady
    (before : Disk)
    (dir : Location)
    (P : Disk → Prop) : Prop where
  kept : ∀ d, P d → Kept before dir d
  moved :
    ∀ d f, P d → Copied d dir f → P (moveBack d f)

/- Keeping the first files is such a property. -/
theorem steady_kept
    (hTree : before.WellFormed)
    (hPristine : Pristine before dir) :
    Steady before dir (Kept before dir) where
  kept _ := id
  moved _ _ hKept := hKept.moveBack hTree hPristine

section Steady

variable {P : Disk → Prop}

/-
  Restoring candidates below the roots keeps such a property,
  up to any failure.
-/
theorem Steady.restoreEach
    (hSteady : Steady before dir P)
    (hTree : before.WellFormed)
    (hPristine : Pristine before dir)
    {entries : List (Path × Node)}
    (hUnder :
      ∀ entry ∈ entries, ∀ m,
        before.locate entry.1 = .ok m → UnderRoot dir m)
    (hNow : P now) :
    P (restoreEach now entries).disk := by
  induction entries generalizing now with
  | nil => exact hNow
  | cons entry rest ih =>
      obtain ⟨p, n⟩ := entry
      unfold Backup.restoreEach
      cases hRestore : Backup.restoreOne now p with
      | error e => exact hNow
      | ok result =>
          obtain ⟨next, restored⟩ := result
          have hNext : P next := by
            rcases (hSteady.kept now hNow).restoreOne_cases
                hTree hPristine (hUnder (p, n) (by simp))
                hRestore with
              rfl | ⟨f, hCopied, rfl⟩
            · exact hNow
            · exact hSteady.moved now f hNow hCopied
          cases listing now p n with
          | some e => exact hNext
          | none =>
              apply ih _ hNext
              intro other hMem
              exact hUnder other
                (List.mem_cons_of_mem _ hMem)

/- Restoring candidates of a root keeps it. -/
theorem Steady.restoreRoot
    (hSteady : Steady before dir P)
    (hTree : before.WellFormed)
    (hPristine : Pristine before dir)
    (hDirectory : before.locate path = .ok dir)
    {root : String}
    (hRoot : root ∈ roots)
    (hNow : P now)
    {entries : List (Path × Node)}
    (hEntries : entries ⊆ candidates now path root) :
    P (Backup.restoreEach now entries).disk := by
  have hKept := hSteady.kept now hNow
  apply hSteady.restoreEach hTree hPristine _ hNow
  rintro ⟨p, n⟩ hMem m hLocate
  exact
    mem_candidates hKept.tree hRoot
      (hKept.folders.locate_eq_ok hDirectory) (hEntries hMem)
      (hKept.folders.locate_eq_ok hLocate)

/- Restoring roots keeps it, up to any failure. -/
theorem Steady.restoreRoots
    (hSteady : Steady before dir P)
    (hTree : before.WellFormed)
    (hPristine : Pristine before dir)
    (hDirectory : before.locate path = .ok dir)
    {remaining : List String}
    (hRoots : remaining ⊆ roots)
    (hNow : P now) :
    P (restoreRoots now path remaining).disk := by
  induction remaining generalizing now with
  | nil => exact hNow
  | cons root rest ih =>
      have hFirst :=
        hSteady.restoreRoot hTree hPristine hDirectory
          (hRoots List.mem_cons_self) hNow
          (List.Subset.refl _)
      unfold Backup.restoreRoots
      dsimp only
      split
      · exact hFirst
      · exact
          ih (List.subset_of_cons_subset hRoots) hFirst

/- Restoring everything keeps it, up to any failure. -/
theorem Steady.restoreAll
    (hSteady : Steady before dir P)
    (hTree : before.WellFormed)
    (hPristine : Pristine before dir)
    (hDirectory : before.locate path = .ok dir)
    (hNow : P now) :
    P (restoreAll now path).disk :=
  hSteady.restoreRoots hTree hPristine hDirectory
    (List.Subset.refl roots) hNow

end Steady

/- Restoring everything keeps the files, up to any failure. -/
theorem Kept.restoreAll
    (hKept : Kept before dir now)
    (hTree : before.WellFormed)
    (hPristine : Pristine before dir)
    (hDirectory : before.locate path = .ok dir) :
    Kept before dir (restoreAll now path).disk :=
  (steady_kept hTree hPristine).restoreAll hTree hPristine
    hDirectory hKept

------------------------------------------------------------
-- Moving Every Copy Back
------------------------------------------------------------

/- Restoring everything moves exactly the copies there are. -/
theorem Kept.movesBack_restoreAll
    (hKept : Kept before dir now)
    (hTree : before.WellFormed)
    (hPristine : Pristine before dir)
    (hDirectory : before.locate path = .ok dir)
    (hReaches : Reaches now dir path) :
    ∃ files : List Location,
      MovesBack now (UnderRoot dir)
        (Backup.restoreAll now path) files :=
  Backup.movesBack_restoreAll hKept.tree
    (hKept.folders.locate_eq_ok hDirectory) hReaches
    fun _ hCopied => hKept.movable hTree hPristine hCopied

/- Restoring changes nothing if there is no copy. -/
theorem Kept.restoreAll_eq_self
    (hKept : Kept before dir now)
    (hTree : before.WellFormed)
    (hPristine : Pristine before dir)
    (hDirectory : before.locate path = .ok dir)
    (hReaches : Reaches now dir path)
    (hNone : ∀ f, ¬ Copied now dir f) :
    Backup.restoreAll now path = ⟨now, [], none⟩ := by
  rcases hKept.movesBack_restoreAll hTree hPristine
      hDirectory hReaches with
    ⟨files, hMoves⟩
  have hNothing : files = [] := by
    apply List.eq_nil_iff_forall_not_mem.mpr
    intro f hMem
    exact hNone f ((hMoves.mem f).mp hMem)
  subst hNothing
  have hDone : (Backup.restoreAll now path).done = [] :=
    List.map_eq_nil_iff.mp hMoves.reported
  calc
    Backup.restoreAll now path =
        ⟨(Backup.restoreAll now path).disk,
          (Backup.restoreAll now path).done,
          (Backup.restoreAll now path).failure⟩ := rfl
    _ = ⟨now, [], none⟩ := by
        rw [hMoves.disk, hDone, hMoves.failure]
        rfl

/- So it leaves a pristine tree alone. -/
theorem restoreAll_of_pristine
    (hTree : before.WellFormed)
    (hPristine : Pristine before dir)
    (hDirectory : before.locate path = .ok dir)
    (hReaches : Reaches before dir path) :
    restoreAll before path = ⟨before, [], none⟩ := by
  have hKept := Kept.refl hTree hPristine
  apply
    hKept.restoreAll_eq_self hTree hPristine hDirectory
      hReaches
  rintro f ⟨hUnder, hCopy⟩
  exact hCopy (hPristine.copyPlace_free hUnder)

/-
  What restoring does if it misses nothing: each file with a
  copy is given back once, all below the roots is as it was at
  first, no copy is left, and once more there is nothing to do.
-/
structure Restored
    (before now : Disk)
    (dir : Location)
    (path : Path)
    (r : Progress) : Prop where
  failure : r.failure = none
  reported :
    ∃ files : List Location,
      r.done.map before.locate = files.map .ok ∧
        files.Nodup ∧
        ∀ f, f ∈ files ↔ Copied now dir f
  original :
    ∀ l, UnderRoot dir l → r.disk.node? l = before.node? l
  noCopy : ∀ f, ¬ Copied r.disk dir f
  again : Backup.restoreAll r.disk path = ⟨r.disk, [], none⟩

/- A shift of everything that has a copy leaves no copy. -/
theorem Kept.not_copied_of_shifted
    (hKept : Kept before dir now)
    (hPristine : Pristine before dir)
    {files : List Location}
    (hFiles : ∀ f, f ∈ files ↔ Copied now dir f)
    {next : Disk}
    (hShifted : Shifted now files next)
    (f : Location) :
    ¬ Copied next dir f := by
  rintro ⟨hUnder, hCopy⟩
  rw [hShifted.node] at hCopy
  split at hCopy
  · rename_i hFile
    rcases hKept.bytes_of_copied hPristine
        ((hFiles _).mp hFile) with
      ⟨_, _, _, _, hNotCopy⟩
    exact hNotCopy f rfl
  · split at hCopy
    · exact hCopy rfl
    · rename_i hNotMoved
      apply hNotMoved
      exact
        copyPlace_mem_map_iff.mpr
          ((hFiles f).mpr ⟨hUnder, hCopy⟩)

/- Restoring misses nothing if it reaches everything. -/
theorem Kept.restored
    (hKept : Kept before dir now)
    (hTree : before.WellFormed)
    (hPristine : Pristine before dir)
    (hDirectory : before.locate path = .ok dir)
    (hReaches : Reaches now dir path) :
    Restored before now dir path
      (Backup.restoreAll now path) := by
  rcases hKept.movesBack_restoreAll hTree hPristine
      hDirectory hReaches with
    ⟨files, hMoves⟩
  have hShifted := hMoves.shifted hKept.tree
  have hEnd := hKept.restoreAll hTree hPristine hDirectory
  have hNone :=
    hKept.not_copied_of_shifted hPristine hMoves.mem hShifted
  have hDone :=
    map_locate_eq hKept.folders.symm hMoves.reported
  have hAgain :=
    hEnd.restoreAll_eq_self hTree hPristine hDirectory
      (hShifted.reaches hReaches) hNone
  exact
    ⟨hMoves.failure,
      ⟨files, hDone, hMoves.inOrder.distinct, hMoves.mem⟩,
      fun l => hEnd.node?_eq hNone, hNone, hAgain⟩

------------------------------------------------------------
-- Out of Reach
------------------------------------------------------------

/- Nothing is restored if no root is searched for. -/
theorem restoreRoots_of_not_searched
    {remaining : List String}
    (hNone :
      ∀ root ∈ remaining,
        searched? ⟨path.segments ++ [root]⟩ = none) :
    restoreRoots now path remaining = ⟨now, [], none⟩ := by
  induction remaining with
  | nil => rfl
  | cons root rest ih =>
      have hCandidates : candidates now path root = [] := by
        unfold candidates
        rw [hNone root List.mem_cons_self]
      have hRest :=
        ih fun other hMem =>
          hNone other (List.mem_cons_of_mem _ hMem)
      unfold restoreRoots
      simp only [hCandidates, restoreEach, hRest,
        List.append_nil]

/- A folder under too long a path cannot be listed. -/
theorem listing_ne_none
    (hLong : Disk.maxPathBytes < p.text.utf8ByteSize) :
    listing now p .folder ≠ none := by
  unfold listing
  cases hLookup : now.lookup p with
  | error e => simp
  | ok n =>
      rcases Disk.lookup_eq_ok_iff.mp hLookup with
        ⟨l, hLocate, _⟩
      have hShort := (Disk.locate_eq_ok_iff.mp hLocate).1.2.1
      omega

/- A copy under too long a path cannot be moved back. -/
theorem restoreOne_ne_ok
    (hName : endsInBackup p.segments = true)
    (hLong : Disk.maxPathBytes < p.text.utf8ByteSize)
    (result : Disk × Option Path) :
    restoreOne now p ≠ .ok result := by
  intro hRestore
  unfold endsInBackup at hName
  unfold restoreOne at hRestore
  simp only [hName, if_true] at hRestore
  split at hRestore
  · cases hRestore
  · rename_i moved hRename
    rcases Disk.exists_node_of_rename hRename with
      ⟨l, _, hLocate, _⟩
    have hShort := (Disk.locate_eq_ok_iff.mp hLocate).1.2.1
    omega

/- Restoring fails if such a folder or copy is a candidate. -/
theorem failure_restoreEach
    {entries : List (Path × Node)}
    {n : Node}
    (hMem : (p, n) ∈ entries)
    (hKind : n = .folder ∨ endsInBackup p.segments = true)
    (hLong : Disk.maxPathBytes < p.text.utf8ByteSize) :
    (restoreEach now entries).failure ≠ none := by
  induction entries generalizing now with
  | nil => cases hMem
  | cons entry rest ih =>
      obtain ⟨other, m⟩ := entry
      unfold restoreEach
      cases hRestore : restoreOne now other with
      | error e => simp
      | ok result =>
          obtain ⟨next, restored⟩ := result
          cases hListing : listing now other m with
          | some e => simp
          | none =>
              rcases List.mem_cons.mp hMem with hHead | hTail
              · cases hHead
                rcases hKind with rfl | hName
                · exact absurd hListing (listing_ne_none hLong)
                · exact
                    absurd hRestore
                      (restoreOne_ne_ok hName hLong _)
              · exact ih hTail

/- Restoring goes no further than the root where it fails. -/
theorem failure_restoreRoots_cons
    {root : String}
    (hFirst :
      (restoreEach now (candidates now path root)).failure ≠
        none)
    (rest : List String) :
    (restoreRoots now path (root :: rest)).failure ≠ none := by
  unfold restoreRoots
  dsimp only
  split
  · exact hFirst
  · rename_i hSuccess
    exact absurd hSuccess hFirst

/-
  Restoring fails as long as there is a folder under too long
  a path, which is never moved.
-/
theorem Kept.failure_restoreRoots
    (hKept : Kept before dir now)
    (hTree : before.WellFormed)
    (hPristine : Pristine before dir)
    (hDirectory : before.locate path = .ok dir)
    {remaining : List String}
    (hRoots : remaining ⊆ roots)
    {root : String}
    (hRoot : root ∈ remaining)
    {top : Path}
    (hSearched :
      searched? ⟨path.segments ++ [root]⟩ = some top)
    (hTop : before.locate top = .ok (dir ++ [root]))
    {names : Location}
    (hNames : names ≠ [])
    (hFolder :
      before.node? (dir ++ [root] ++ names) = some .folder)
    (hLong :
      Disk.maxPathBytes <
        (⟨top.segments ++ names⟩ : Path).text.utf8ByteSize) :
    (Backup.restoreRoots now path remaining).failure ≠
      none := by
  induction remaining generalizing now with
  | nil => cases hRoot
  | cons first rest ih =>
      rcases List.mem_cons.mp hRoot with rfl | hRest
      · have hMem :=
          mem_candidates_of_node? hKept.tree hSearched
            (hKept.folders.locate_eq_ok hTop) hNames
            ((hKept.folders.folder _).mp hFolder)
        exact
          failure_restoreRoots_cons
            (failure_restoreEach hMem (Or.inl rfl) hLong) rest
      · unfold Backup.restoreRoots
        dsimp only
        split
        · rename_i e hFailure
          simp [hFailure]
        · have hFirst :=
            (steady_kept hTree hPristine).restoreRoot hTree
              hPristine hDirectory (hRoots List.mem_cons_self)
              hKept (List.Subset.refl _)
          exact
            ih hFirst (List.subset_of_cons_subset hRoots) hRest

end Backup

end LootFilter
