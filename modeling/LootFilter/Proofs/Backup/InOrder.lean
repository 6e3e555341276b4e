import LootFilter.Proofs.Backup.Searched
import LootFilter.Proofs.Backup.Shift
import Mathlib.Data.Set.List

/-
  Restoring moves copies back in order.

  What is below a root is listed with shorter names first, so
  a copy is moved away before its own copy takes its place.
  Under a spelling that reaches everything, restoring hence
  moves every copy once and does not fail, if each can be
  moved.

  Main declarations:
    * `Backup.restoreOne_of_movable`
    * `Backup.Shifted.restoreEach_eq`
    * `Backup.MovesBack` and `Backup.MovesBack.andThen`
    * `Backup.Shifted.reaches`
    * `Backup.movesBack_restoreAll`
-/

namespace LootFilter

namespace Backup

open Disk (WellFormed SameFolders IsPlace)

variable {d now : Disk} {base dir f g l : Location}
variable {files gone more : List Location}
variable {P Q : Location → Prop}
variable {p path top : Path} {root other : String}

------------------------------------------------------------
-- One Candidate
------------------------------------------------------------

/- A candidate without the name of a copy is left alone. -/
theorem restoreOne_of_not_copy
    (hName : endsInBackup p.segments = false) :
    restoreOne now p = .ok (now, none) := by
  unfold endsInBackup at hName
  simp [restoreOne, hName]

/-
  A path with the name of a copy leads to a copy, and its
  restored name leads to the file.
-/
theorem exists_copyPlace_of_locate
    (hName : endsInBackup p.segments = true)
    (hLocate : now.locate p = .ok l) :
    ∃ f,
      l = copyPlace f ∧ Disk.endsInName p = true ∧
        (IsPlace f →
          Disk.endsInName (p.mapName restoredName) = true ∧
            now.locate (p.mapName restoredName) = .ok f) := by
  obtain ⟨all⟩ := p
  rcases List.eq_nil_or_concat all with
    rfl | ⟨segments, name, rfl⟩
  · simp at hName
  · rw [List.concat_eq_append] at hName hLocate ⊢
    rw [endsInBackup, List.getLast?_concat, Option.getD_some,
      isBackupName_iff] at hName
    rcases hName with ⟨stem, rfl⟩
    have hLong := namesEntry_append_backupSuffix stem
    rcases Disk.exists_parent_of_locate rfl hLong hLocate with
      ⟨parent, _, _, rfl⟩
    refine
      ⟨parent ++ [stem], (copyPlace_concat _ _).symm,
        (Disk.endsInName_iff rfl).mpr hLong, ?_⟩
    intro hPlace
    have hStem := hPlace stem (by simp)
    have hTarget :
        (⟨segments ++ [stem ++ DataFile.backupSuffix]⟩ :
            Path).mapName restoredName =
          ⟨segments ++ [stem]⟩ := by
      rw [← restoredName_append hStem.1.1]
      simp [Path.mapName, restoredName_append hStem.1.1]
    rw [hTarget]
    exact
      ⟨(Disk.endsInName_iff rfl).mpr hStem.1,
        Disk.locate_of_append_ending hStem hLong hLocate⟩

/- A candidate that leads to a copy has it moved back. -/
theorem restoreOne_of_movable
    (hMovable : Movable now f)
    (hName : endsInBackup p.segments = true)
    (hLocate : now.locate p = .ok (copyPlace f)) :
    ∃ target,
      restoreOne now p = .ok (moveBack now f, some target) ∧
        now.locate target = .ok f := by
  rcases hMovable.file with ⟨bytes, hFile⟩
  rcases exists_copyPlace_of_locate hName hLocate with
    ⟨g, hEq, hEnds, hTarget⟩
  have hSame : f = g := copyPlace_injective hEq
  subst hSame
  rcases hTarget hMovable.place with
    ⟨hTargetEnds, hTargetLocate⟩
  have hRename :
      now.rename p (p.mapName restoredName) =
        .ok (moveBack now f) :=
    (Disk.rename_file_eq_ok_iff hLocate hFile).mpr
      ⟨hEnds, hTargetEnds, f, hTargetLocate,
        Or.inr
          ⟨copyPlace_ne_self hMovable.ne_nil, hMovable.free,
            rfl⟩⟩
  refine ⟨p.mapName restoredName, ?_, hTargetLocate⟩
  unfold endsInBackup at hName
  unfold restoreOne
  simp only [hName, if_true, hRename]

------------------------------------------------------------
-- What Is Listed
------------------------------------------------------------

/-
  What is listed below a place, each under a path that leads
  there if it is a folder or may be a copy.
-/
structure Listed
    (d : Disk)
    (base : Location)
    (top : Path)
    (entries : List (Location × Node)) : Prop where
  named : ∀ names n, (names, n) ∈ entries → names ≠ []
  folder :
    ∀ names, (names, .folder) ∈ entries →
      d.node? (base ++ names) = some .folder
  located :
    ∀ names n, (names, n) ∈ entries →
      n = .folder ∨ endsInBackup names = true →
        d.locate ⟨top.segments ++ names⟩ = .ok (base ++ names)

section Listed

variable {names : Location} {n : Node}
variable {entries rest : List (Location × Node)}

/- The first of what is listed can be left out. -/
theorem Listed.tail
    (hListed : Listed d base top ((names, n) :: rest)) :
    Listed d base top rest where
  named other m hMem :=
    hListed.named other m (List.mem_cons_of_mem _ hMem)
  folder other hMem :=
    hListed.folder other (List.mem_cons_of_mem _ hMem)
  located other m hMem :=
    hListed.located other m (List.mem_cons_of_mem _ hMem)

/- A folder that is listed can still be looked into. -/
theorem Listed.listing_eq_none
    (hListed : Listed d base top ((names, n) :: rest))
    (hFolders : SameFolders d now) :
    listing now ⟨top.segments ++ names⟩ n = none := by
  cases n with
  | file bytes => rfl
  | folder =>
      have hLocate :=
        hListed.located names .folder (by simp) (Or.inl rfl)
      have hFolder := hListed.folder names (by simp)
      have hLookup :=
        Disk.lookup_eq_ok_iff.mpr
          ⟨_, hFolders.locate_eq_ok hLocate,
            (hFolders.folder _).mp hFolder⟩
      simp only [listing, hLookup]

/-
  What is listed is restored without failure, if its copies
  can be moved back in order, after those that are moved back
  already.
-/
theorem Shifted.restoreEach_eq
    (hShifted : Shifted d gone now)
    (hListed : Listed d base top entries)
    (hFiles :
      files.map copyPlace =
        ((entries.map Prod.fst).filter endsInBackup).map
          (base ++ ·))
    (hOrder : InOrder d (gone ++ files)) :
    ∃ done : List Path,
      restoreEach now
          (entries.map fun entry =>
            (⟨top.segments ++ entry.1⟩, entry.2)) =
        ⟨files.foldl Backup.moveBack now, done, none⟩ ∧
      done.map d.locate = files.map .ok := by
  induction entries generalizing files gone now with
  | nil =>
      have hNone : files = [] := by simpa using hFiles
      subst hNone
      exact ⟨[], rfl, rfl⟩
  | cons entry rest ih =>
      obtain ⟨names, n⟩ := entry
      have hListing :=
        hListed.listing_eq_none hShifted.folders
      have hLast :
          endsInBackup (top.segments ++ names) =
            endsInBackup names :=
        endsInBackup_append _ (hListed.named names n (by simp))
      rw [List.map_cons, List.filter_cons] at hFiles
      cases hName : endsInBackup names with
      | false =>
          rw [hName] at hLast
          rw [hName, if_neg Bool.false_ne_true] at hFiles
          rcases ih hShifted hListed.tail hFiles hOrder with
            ⟨done, hRun, hDone⟩
          refine ⟨done, ?_, hDone⟩
          rw [List.map_cons, restoreEach,
            restoreOne_of_not_copy hLast]
          simp only [hListing, hRun, Option.toList_none,
            List.nil_append]
      | true =>
          rw [hName] at hLast
          rw [hName, if_pos rfl, List.map_cons] at hFiles
          rcases List.map_eq_cons_iff.mp hFiles with
            ⟨f, later, rfl, hEq, hLater⟩
          have hDistinct :=
            List.nodup_append.mp hOrder.distinct
          have hPairs := List.pairwise_append.mp hOrder.inOrder
          have hMovable := hOrder.movable f (by simp)
          have hNew : f ∉ gone :=
            fun hMem => hDistinct.2.2 f hMem f (by simp) rfl
          have hStands : copyPlace f ∉ gone :=
            fun hMem => hPairs.2.2 _ hMem f (by simp) rfl
          have hLocate :=
            hShifted.folders.locate_eq_ok
              (hListed.located names n (by simp)
                (Or.inr hName))
          rw [← hEq] at hLocate
          rcases restoreOne_of_movable
              (hShifted.movable hNew hStands hMovable) hLast
              hLocate with
            ⟨target, hMoved, hTarget⟩
          rw [List.append_cons] at hOrder
          rcases ih (hShifted.moveBack hNew hStands hMovable)
              hListed.tail hLater hOrder with
            ⟨done, hRun, hDone⟩
          refine ⟨target :: done, ?_, ?_⟩
          · rw [List.map_cons, restoreEach, hMoved]
            simp only [hListing, hRun, Option.toList_some,
              List.singleton_append, List.foldl_cons]
          · rw [List.map_cons, List.map_cons, hDone,
              hShifted.folders.symm.locate_eq_ok hTarget]

end Listed

------------------------------------------------------------
-- Outcomes
------------------------------------------------------------

/-
  Whether restoring has come to moving back, in order, all
  copies that some places have.
-/
structure MovesBack
    (d : Disk)
    (P : Location → Prop)
    (r : Progress)
    (files : List Location) : Prop where
  disk : r.disk = files.foldl moveBack d
  failure : r.failure = none
  reported : r.done.map d.locate = files.map .ok
  inOrder : InOrder d files
  mem :
    ∀ f, f ∈ files ↔ P f ∧ d.node? (copyPlace f) ≠ none

/- Whether places and their copies are apart from others. -/
def Apart (P Q : Location → Prop) : Prop :=
  ∀ f, P f → ∀ g, Q g →
    f ≠ g ∧ f ≠ copyPlace g ∧ copyPlace f ≠ g

/- A shift changes nothing apart from its places. -/
theorem Shifted.node?_of_apart
    (hShifted : Shifted d files now)
    (hFiles : ∀ f ∈ files, P f)
    (hApart : Apart P Q)
    (hG : Q g) :
    now.node? g = d.node? g ∧
      now.node? (copyPlace g) = d.node? (copyPlace g) := by
  have hNotFile : g ∉ files :=
    fun hMem => (hApart g (hFiles g hMem) g hG).1 rfl
  have hNotCopy : g ∉ files.map copyPlace := by
    intro hMem
    rcases List.mem_map.mp hMem with ⟨f, hF, hEq⟩
    exact (hApart f (hFiles f hF) g hG).2.2 hEq
  have hCopy : copyPlace g ∉ files :=
    fun hMem => (hApart _ (hFiles _ hMem) g hG).2.1 rfl
  constructor
  · rw [hShifted.node, if_neg hNotFile, if_neg hNotCopy]
  · exact hShifted.node?_copyPlace hNotFile hCopy

/- What leads somewhere in one tree does so in the other. -/
theorem map_locate_eq
    {done : List Path}
    (hFolders : SameFolders d now)
    (hDone : done.map d.locate = files.map .ok) :
    done.map now.locate = files.map .ok := by
  induction done generalizing files with
  | nil => exact hDone
  | cons p rest ih =>
      rcases List.map_eq_cons_iff.mp hDone.symm with
        ⟨f, later, rfl, hFirst, hRest⟩
      rw [List.map_cons, List.map_cons, ih hRest.symm,
        hFolders.locate_eq_ok hFirst.symm]

namespace MovesBack

variable {first second : Progress}

/- Then the files are shifted. -/
theorem shifted
    (hMoves : MovesBack d P first files)
    (hTree : d.WellFormed) :
    Shifted d files first.disk := by
  rw [hMoves.disk]
  exact shifted_foldl_moveBack hTree hMoves.inOrder

/- What is apart from the places stays as it was. -/
theorem node?_of_apart
    (hMoves : MovesBack d P first files)
    (hTree : d.WellFormed)
    (hApart : Apart P Q)
    (hG : Q g) :
    first.disk.node? g = d.node? g ∧
      first.disk.node? (copyPlace g) =
        d.node? (copyPlace g) :=
  (hMoves.shifted hTree).node?_of_apart
    (fun f hMem => ((hMoves.mem f).mp hMem).1) hApart hG

/- Two such outcomes for places apart make one. -/
theorem andThen
    (hFirst : MovesBack d P first files)
    (hTree : d.WellFormed)
    (hSecond : MovesBack first.disk Q second more)
    (hApart : Apart P Q) :
    MovesBack d (fun f => P f ∨ Q f)
      ⟨second.disk, first.done ++ second.done,
        second.failure⟩
      (files ++ more) := by
  have hShifted := hFirst.shifted hTree
  have hMore :
      ∀ g, g ∈ more ↔
        Q g ∧ d.node? (copyPlace g) ≠ none := by
    intro g
    rw [hSecond.mem]
    apply and_congr_right
    intro hG
    rw [(hFirst.node?_of_apart hTree hApart hG).2]
  have hOrder : InOrder d more := by
    refine
      ⟨hSecond.inOrder.distinct, hSecond.inOrder.inOrder, ?_⟩
    intro g hMem
    rcases hFirst.node?_of_apart hTree hApart
        ((hMore g).mp hMem).1 with
      ⟨hNode, hCopy⟩
    exact (hSecond.inOrder.movable g hMem).congr hNode hCopy
  refine ⟨?_, hSecond.failure, ?_, ?_, ?_⟩
  · rw [List.foldl_append, ← hFirst.disk]
    exact hSecond.disk
  · rw [List.map_append, List.map_append, hFirst.reported,
      map_locate_eq hShifted.folders.symm hSecond.reported]
  · apply hFirst.inOrder.append hOrder
    intro f hF g hG
    rcases hApart f ((hFirst.mem f).mp hF).1 g
        ((hMore g).mp hG).1 with
      ⟨hNe, hNeCopy, _⟩
    exact ⟨hNe, hNeCopy⟩
  · intro f
    rw [List.mem_append, hFirst.mem, hMore, ← or_and_right]

end MovesBack

------------------------------------------------------------
-- One Root
------------------------------------------------------------

/- A copy is not listed before what it is a copy of. -/
theorem not_le_copyPlace
    (hRoot : l ≠ []) :
    ¬ Location.le (copyPlace l) l = true := by
  rcases List.eq_nil_or_concat l with
    rfl | ⟨parent, name, rfl⟩
  · exact absurd rfl hRoot
  · rw [List.concat_eq_append, copyPlace_concat]
    exact Location.not_le_of_append parent name (by decide)

/- What has its copy below a place, by the copies listed. -/
theorem exists_files_below
    (hTree : d.WellFormed)
    (base : Location) :
    ∃ found : List Location,
      found.map copyPlace =
          ((d.below base).map Prod.fst).filter endsInBackup ∧
        ∀ f, f ∈ found ↔
          f ≠ [] ∧ d.node? (base ++ copyPlace f) ≠ none := by
  have hCopies :
      ((d.below base).map Prod.fst).filter endsInBackup ∈
        Set.range (List.map copyPlace) := by
    rw [Set.range_list_map]
    intro l hMem
    rcases endsInBackup_iff.mp (List.mem_filter.mp hMem).2 with
      ⟨f, _, rfl⟩
    exact ⟨f, rfl⟩
  rcases hCopies with ⟨found, hFound⟩
  refine ⟨found, hFound, ?_⟩
  intro f
  rw [← copyPlace_mem_map_iff, hFound, List.mem_filter,
    Disk.mem_map_below_iff hTree, ne_eq, copyPlace_eq_nil_iff,
    and_iff_left_iff_imp]
  rintro ⟨hRoot, _⟩
  exact endsInBackup_iff.mpr ⟨f, hRoot, rfl⟩

/-
  The copies listed below a place can be moved back in the
  order of the listing, if each can be moved.
-/
theorem exists_inOrder_below
    (hTree : d.WellFormed)
    (hMovable :
      ∀ f, IsBelow base f → d.node? (copyPlace f) ≠ none →
        Movable d f) :
    ∃ files : List Location,
      files.map copyPlace =
          (((d.below base).map Prod.fst).filter
            endsInBackup).map (base ++ ·) ∧
        InOrder d files ∧
        ∀ f, f ∈ files ↔
          IsBelow base f ∧ d.node? (copyPlace f) ≠ none := by
  rcases exists_files_below hTree base with
    ⟨found, hFound, hMem⟩
  have hFiles :
      ∀ f, f ∈ found.map (base ++ ·) ↔
        IsBelow base f ∧ d.node? (copyPlace f) ≠ none := by
    intro f
    rw [List.mem_map]
    constructor
    · rintro ⟨names, hNames, rfl⟩
      rcases (hMem names).mp hNames with ⟨hSome, hNode⟩
      rw [copyPlace_append _ hSome]
      exact ⟨⟨names, hSome, rfl⟩, hNode⟩
    · rintro ⟨⟨names, hSome, rfl⟩, hNode⟩
      rw [copyPlace_append _ hSome] at hNode
      exact ⟨names, (hMem names).mpr ⟨hSome, hNode⟩, rfl⟩
  have hListed :
      (found.map copyPlace).Pairwise fun a b =>
        Location.le a b = true := by
    rw [hFound]
    apply List.Pairwise.filter
    exact List.pairwise_map.mpr (d.pairwise_below base)
  have hDistinct : (found.map copyPlace).Nodup := by
    rw [hFound]
    exact (Disk.nodup_below hTree base).filter _
  refine ⟨found.map (base ++ ·), ?_, ⟨?_, ?_, ?_⟩, hFiles⟩
  · rw [← hFound, List.map_map, List.map_map]
    apply List.map_congr_left
    intro f hF
    exact copyPlace_append _ ((hMem f).mp hF).1
  · apply hDistinct.of_map.map
    intro a b hEq
    exact List.append_cancel_left hEq
  · rw [List.pairwise_map] at hListed ⊢
    apply hListed.imp_of_mem
    intro f g _ hG hLe hEq
    have hRoot := ((hMem g).mp hG).1
    rw [copyPlace_append _ hRoot] at hEq
    rw [List.append_cancel_left hEq] at hLe
    exact
      not_le_copyPlace (mt copyPlace_eq_nil_iff.mp hRoot) hLe
  · intro f hF
    rcases (hFiles f).mp hF with ⟨hBelow, hNode⟩
    exact hMovable f hBelow hNode

/- Restoring a root moves the copies below it back in order. -/
theorem movesBack_restoreRoot
    (hTree : d.WellFormed)
    (hDirectory : d.locate path = .ok dir)
    (hReaches : Reaches d dir path)
    (hRoot : root ∈ roots)
    (hMovable :
      ∀ f, IsBelow (dir ++ [root]) f →
        d.node? (copyPlace f) ≠ none → Movable d f) :
    ∃ files : List Location,
      MovesBack d (IsBelow (dir ++ [root]))
        (restoreEach d (candidates d path root)) files := by
  rcases hReaches.candidates_eq hTree hDirectory hRoot with
    ⟨top, hLocate, hCandidates⟩
  rcases exists_inOrder_below hTree hMovable with
    ⟨files, hFiles, hOrder, hMem⟩
  have hListed :
      Listed d (dir ++ [root]) top
        (d.below (dir ++ [root])) := by
    refine ⟨?_, ?_, ?_⟩
    · intro names n hBelow
      exact ((Disk.mem_below_iff hTree).mp hBelow).1
    · intro names hBelow
      exact ((Disk.mem_below_iff hTree).mp hBelow).2
    · intro names n hBelow hKind
      exact
        hLocate names n
          ((Disk.mem_below_iff hTree).mp hBelow).2 hKind
  rcases (shifted_nil hTree).restoreEach_eq hListed hFiles
      hOrder with
    ⟨done, hRun, hDone⟩
  rw [hCandidates, hRun]
  exact ⟨files, rfl, rfl, hDone, hOrder, hMem⟩

------------------------------------------------------------
-- All Roots
------------------------------------------------------------

/- What is below different roots is apart. -/
theorem apart_isBelow
    (hNe : root ≠ other) :
    Apart (IsBelow (dir ++ [root]))
      (IsBelow (dir ++ [other])) := by
  have hPlaces :
      ∀ f, IsBelow (dir ++ [root]) f →
        ∀ g, IsBelow (dir ++ [other]) g → f ≠ g := by
    rintro f ⟨names, _, rfl⟩ g ⟨others, _, rfl⟩ hEq
    rw [List.append_assoc, List.append_assoc] at hEq
    have hRest := List.append_cancel_left hEq
    exact hNe (List.cons.inj hRest).1
  intro f hF g hG
  exact
    ⟨hPlaces f hF g hG,
      hPlaces f hF _ (isBelow_copyPlace_iff.mpr hG),
      hPlaces _ (isBelow_copyPlace_iff.mpr hF) g hG⟩

/- A path is not shorter if its last name has the suffix. -/
theorem utf8ByteSize_text_copyPlace
    (segments : List String)
    {names : List String}
    (hNames : names ≠ []) :
    (⟨segments ++ names⟩ : Path).text.utf8ByteSize ≤
      (⟨segments ++ copyPlace names⟩ :
        Path).text.utf8ByteSize := by
  rcases List.eq_nil_or_concat names with
    rfl | ⟨above, name, rfl⟩
  · exact absurd rfl hNames
  · rw [List.concat_eq_append, copyPlace_concat,
      ← List.append_assoc, ← List.append_assoc,
      Disk.text_concat_append, String.utf8ByteSize_append]
    omega

/- A shift keeps all within reach, as names get shorter. -/
theorem Shifted.reaches
    (hShifted : Shifted d files now)
    (hReaches : Reaches d dir path) :
    Reaches now dir path := by
  intro root hRoot
  rcases hReaches root hRoot with ⟨top, hSearched, hSizes⟩
  refine ⟨top, hSearched, ?_⟩
  intro names n hNode hKind
  rcases hKind with rfl | hName
  · exact
      hSizes names .folder
        ((hShifted.folders.folder _).mpr hNode) (Or.inl rfl)
  · have hNames : names ≠ [] := by
      rintro rfl
      simp at hName
    rw [hShifted.node] at hNode
    split at hNode
    · rw [copyPlace_append _ hNames] at hNode
      have hCopy :=
        hSizes (copyPlace names) n hNode
          (Or.inr (endsInBackup_iff.mpr ⟨names, hNames, rfl⟩))
      exact
        (utf8ByteSize_text_copyPlace _ hNames).trans hCopy
    · split at hNode
      · cases hNode
      · exact hSizes names n hNode (Or.inr hName)

/-
  Restoring different roots moves the copies below them back
  in order.  The induction goes to the tree that the first
  root leaves, where nothing below the others has changed.
-/
theorem movesBack_restoreRoots
    (hTree : d.WellFormed)
    (hDirectory : d.locate path = .ok dir)
    (hReaches : Reaches d dir path)
    {remaining : List String}
    (hRoots : remaining ⊆ roots)
    (hDistinct : remaining.Nodup)
    (hMovable :
      ∀ root ∈ remaining, ∀ f, IsBelow (dir ++ [root]) f →
        d.node? (copyPlace f) ≠ none → Movable d f) :
    ∃ files : List Location,
      MovesBack d
        (fun f => ∃ root ∈ remaining, IsBelow (dir ++ [root]) f)
        (restoreRoots d path remaining) files := by
  induction remaining generalizing d with
  | nil =>
      exact
        ⟨[], rfl, rfl, rfl,
          ⟨List.nodup_nil, List.Pairwise.nil, by simp⟩,
          by simp⟩
  | cons root rest ih =>
      rcases movesBack_restoreRoot hTree hDirectory hReaches
          (hRoots List.mem_cons_self)
          (hMovable root List.mem_cons_self) with
        ⟨files, hFirst⟩
      have hShifted := hFirst.shifted hTree
      rw [List.nodup_cons] at hDistinct
      have hApart :
          Apart (IsBelow (dir ++ [root]))
            (fun f =>
              ∃ other ∈ rest, IsBelow (dir ++ [other]) f) := by
        rintro f hF g ⟨other, hOther, hG⟩
        apply apart_isBelow ?_ f hF g hG
        rintro rfl
        exact hDistinct.1 hOther
      have hMovableNext :
          ∀ other ∈ rest, ∀ f, IsBelow (dir ++ [other]) f →
            (restoreEach d (candidates d path root)).disk.node?
                (copyPlace f) ≠
              none →
            Movable
              (restoreEach d (candidates d path root)).disk
              f := by
        intro other hOther f hBelow hCopy
        rcases hFirst.node?_of_apart hTree hApart
            ⟨other, hOther, hBelow⟩ with
          ⟨hNode, hCopyNode⟩
        rw [hCopyNode] at hCopy
        exact
          (hMovable other (List.mem_cons_of_mem _ hOther) f
            hBelow hCopy).congr hNode.symm hCopyNode.symm
      rcases ih hShifted.tree
          (hShifted.folders.locate_eq_ok hDirectory)
          (hShifted.reaches hReaches)
          (List.subset_of_cons_subset hRoots) hDistinct.2
          hMovableNext with
        ⟨more, hSecond⟩
      have hBoth := hFirst.andThen hTree hSecond hApart
      refine ⟨files ++ more, ?_⟩
      unfold restoreRoots
      simp only [hFirst.failure, List.mem_cons,
        exists_eq_or_imp]
      exact hBoth

/-
  Restoring everything moves all copies there are back in
  order, if each can be moved.
-/
theorem movesBack_restoreAll
    (hTree : d.WellFormed)
    (hDirectory : d.locate path = .ok dir)
    (hReaches : Reaches d dir path)
    (hMovable : ∀ f, Copied d dir f → Movable d f) :
    ∃ files : List Location,
      MovesBack d (UnderRoot dir) (restoreAll d path) files :=
  movesBack_restoreRoots hTree hDirectory hReaches
    (List.Subset.refl roots) (by decide)
    fun root hRoot f hBelow hCopy =>
      hMovable f ⟨⟨root, hRoot, hBelow⟩, hCopy⟩

end Backup

end LootFilter
