import LootFilter.Proofs.Backup.Copies
import LootFilter.Proofs.Disk.Files

/-
  Where restoring looks for copies.

  The roots are searched for under a tidied spelling of the
  data directory, which leads to the same place as the one
  given.  What is found below a root is then named by that
  spelling, so a spelling that is too long can hide it.

  Main declarations:
    * `Backup.follow_searched_iff`
    * `Backup.mem_candidates`
    * `Backup.Reaches`
    * `Backup.Reaches.candidates_eq`
-/

namespace LootFilter

namespace Backup

open Disk (WellFormed SameFolders IsPlace IsSpelled IsName
  follow_append_eq_ok_iff follow_singleton_eq_ok_iff
  follow_cons_eq_ok_iff locate_eq_ok_iff)

variable {d : Disk} {l m : Location}
variable {path top : Path} {root : String}

------------------------------------------------------------
-- Searched Folders
------------------------------------------------------------

/- The roots have proper names. -/
theorem isName_of_mem_roots
    (hRoot : root ∈ roots) :
    IsName root := by
  simp only [roots, List.mem_cons, List.not_mem_nil, or_false]
    at hRoot
  rcases hRoot with rfl | rfl <;> decide

/-
  The searched path of a root is the given one without its
  empty segments and without dots in front, and the root.
-/
theorem searched?_cases
    (hSpelled : IsSpelled path)
    (hRoot : root ∈ roots)
    (hSearched :
      searched? ⟨path.segments ++ [root]⟩ = some top) :
    (path.IsAbsolute ∧
        top.segments =
          "" :: (path.segments.filter (· ≠ "") ++ [root])) ∨
      (¬ path.IsAbsolute ∧
        top.segments =
          (path.segments.dropWhile (· = ".")).filter (· ≠ "") ++
            [root]) := by
  rcases (isName_of_mem_roots hRoot).1 with
    ⟨hEmpty, hDot, _⟩
  have hKept : [root].filter (· ≠ "") = [root] := by
    simp [hEmpty]
  have hAbsolute := Disk.isAbsolute_append hSpelled [root]
  unfold searched? at hSearched
  split at hSearched
  · rename_i hPath
    cases hSearched
    left
    refine ⟨hAbsolute.mp hPath, ?_⟩
    simp only [List.filter_append, hKept]
  · rename_i hPath
    right
    refine ⟨mt hAbsolute.mpr hPath, ?_⟩
    have hDropped :
        (path.segments ++ [root]).dropWhile (· = ".") =
          path.segments.dropWhile (· = ".") ++ [root] := by
      rw [List.dropWhile_append]
      split
      · rename_i hNone
        rw [List.isEmpty_iff] at hNone
        simp [hNone, hDot]
      · rfl
    split at hSearched
    · cases hSearched
    · cases hSearched
      simp only [hDropped, List.filter_append, hKept]

/-
  The searched path of a root leads to that root of the data
  directory, if it leads anywhere.
-/
theorem follow_searched_iff
    (hDirectory : d.locate path = .ok l)
    (hRoot : root ∈ roots)
    (hSearched :
      searched? ⟨path.segments ++ [root]⟩ = some top) :
    d.follow (d.start top) top.segments = .ok m ↔
      d.node? l = some .folder ∧ m = l ++ [root] := by
  rcases locate_eq_ok_iff.mp hDirectory with
    ⟨hSpelled, hFollow⟩
  have hName := isName_of_mem_roots hRoot
  have hLast : ∀ start segments,
      d.follow start segments = .ok l →
        (d.follow start (segments ++ [root]) = .ok m ↔
          d.node? l = some .folder ∧ m = l ++ [root]) := by
    intro start segments hSegments
    rw [follow_append_eq_ok_iff]
    simp only [hSegments, follow_singleton_eq_ok_iff,
      Location.advance_of_namesEntry hName.1]
    constructor
    · rintro ⟨_, hMiddle, hFolder, _, hEq⟩
      cases hMiddle
      exact ⟨hFolder, hEq⟩
    · rintro ⟨hFolder, hEq⟩
      exact ⟨l, rfl, hFolder, hName.2.1, hEq⟩
  rcases searched?_cases hSpelled hRoot hSearched with
    ⟨hAbsolute, hTop⟩ | ⟨hRelative, hTop⟩
  · have hStart : d.start path = [] := by
      simp only [Disk.start, hAbsolute, if_true]
    have hTopStart : d.start top = [] := by
      simp [Disk.start, Path.IsAbsolute, hTop]
    rw [hStart] at hFollow
    rw [hTopStart, hTop, follow_cons_eq_ok_iff]
    have hNode : d.node? [] = some .folder := rfl
    have hSize : "".utf8ByteSize ≤ Disk.maxNameBytes := by
      decide
    simp only [hNode, hSize, true_and]
    exact hLast _ _ (Disk.follow_filter_nonempty hFollow)
  · have hStart : d.start path = d.home := by
      simp only [Disk.start, hRelative, if_false]
    have hTopStart : d.start top = d.home := by
      have hHead : ¬ top.IsAbsolute := by
        rintro ⟨hFirst, _⟩
        have hMem := List.mem_of_mem_head? hFirst
        rw [hTop] at hMem
        simp [hName.1.1.symm] at hMem
      simp only [Disk.start, hHead, if_false]
    rw [hStart] at hFollow
    rw [hTopStart, hTop]
    exact hLast _ _
      (Disk.follow_filter_nonempty
        (Disk.follow_dropWhile_dot hFollow))

/- The searched path can be handed over if it is not too long. -/
theorem isSpelled_searched
    (hSpelled : IsSpelled path)
    (hRoot : root ∈ roots)
    (hSearched :
      searched? ⟨path.segments ++ [root]⟩ = some top)
    (hSize : top.text.utf8ByteSize ≤ Disk.maxPathBytes) :
    IsSpelled top := by
  have hName := isName_of_mem_roots hRoot
  have hSegments :
      ∀ segment ∈ top.segments,
        segment = "" ∨ segment ∈ path.segments ∨
          segment = root := by
    intro segment hMem
    rcases searched?_cases hSpelled hRoot hSearched with
      ⟨_, hTop⟩ | ⟨_, hTop⟩
    · rw [hTop, List.mem_cons, List.mem_append,
        List.mem_singleton] at hMem
      rcases hMem with hEmpty | hKept | hLast
      · exact Or.inl hEmpty
      · exact Or.inr (Or.inl (List.mem_of_mem_filter hKept))
      · exact Or.inr (Or.inr hLast)
    · rw [hTop, List.mem_append, List.mem_singleton] at hMem
      rcases hMem with hKept | hLast
      · exact
          Or.inr (Or.inl
            ((List.dropWhile_sublist _).subset
              (List.mem_of_mem_filter hKept)))
      · exact Or.inr (Or.inr hLast)
  have hLast : root ∈ top.segments := by
    rcases searched?_cases hSpelled hRoot hSearched with
      ⟨_, hTop⟩ | ⟨_, hTop⟩ <;> simp [hTop]
  refine ⟨?_, hSize, List.ne_nil_of_mem hLast, ?_⟩
  · intro segment hMem
    rcases hSegments segment hMem with rfl | hOld | rfl
    · decide
    · exact hSpelled.1 segment hOld
    · exact hName.2.2
  · intro hEq
    rw [hEq, List.mem_singleton] at hLast
    exact hName.1.1 hLast

------------------------------------------------------------
-- Candidates
------------------------------------------------------------

/- A path below the searched one leads to the same names. -/
theorem locate_below_searched
    (hTree : d.WellFormed)
    (hTop : d.locate top = .ok l)
    {names : Location}
    {n : Node}
    (hNode : d.node? (l ++ names) = some n)
    (hSize :
      (⟨top.segments ++ names⟩ : Path).text.utf8ByteSize ≤
        Disk.maxPathBytes) :
    d.locate ⟨top.segments ++ names⟩ = .ok (l ++ names) := by
  have hNames : IsPlace names := by
    intro name hName
    exact hTree.isPlace_of_node? hNode name
      (List.mem_append_right _ hName)
  have hSpelled :=
    (locate_eq_ok_iff.mp hTop).1.append hNames hSize
  exact
    (Disk.locate_append_eq_ok_iff hTop hSpelled).mpr
      (hTree.follow_of_node? hNode)

/- A candidate stands below the root that is searched. -/
theorem mem_candidates
    (hTree : d.WellFormed)
    (hRoot : root ∈ roots)
    (hDirectory : d.locate path = .ok l)
    {p : Path}
    {n : Node}
    (hMem : (p, n) ∈ candidates d path root)
    (hLocate : d.locate p = .ok m) :
    UnderRoot l m := by
  unfold candidates at hMem
  split at hMem
  · cases hMem
  · rename_i top hSearched
    split at hMem
    · cases hMem
    · rename_i place hTop
      split at hMem
      · rcases List.mem_map.mp hMem with
          ⟨⟨names, n⟩, hBelow, hEq⟩
        cases hEq
        rcases (Disk.mem_below_iff hTree).mp hBelow with
          ⟨hNames, hNode⟩
        have hFollow :=
          (Disk.locate_append_eq_ok_iff hTop
            (locate_eq_ok_iff.mp hLocate).1).mp hLocate
        rw [hTree.follow_of_node? hNode] at hFollow
        cases hFollow
        have hPlace :=
          ((follow_searched_iff hDirectory hRoot
            hSearched).mp (locate_eq_ok_iff.mp hTop).2).2
        rw [hPlace]
        exact ⟨root, hRoot, names, hNames, rfl⟩
      · cases hMem

/- What is below a root that is searched is a candidate. -/
theorem mem_candidates_of_node?
    (hTree : d.WellFormed)
    (hSearched :
      searched? ⟨path.segments ++ [root]⟩ = some top)
    (hTop : d.locate top = .ok l)
    {names : Location}
    (hNames : names ≠ [])
    {n : Node}
    (hNode : d.node? (l ++ names) = some n) :
    (⟨top.segments ++ names⟩, n) ∈
      candidates d path root := by
  have hFolder : d.node? l = some .folder :=
    hTree.folder_of_append hNames hNode
  unfold candidates
  simp only [hSearched, hTop, hFolder, if_true]
  exact
    List.mem_map.mpr
      ⟨(names, n),
        (Disk.mem_below_iff hTree).mpr ⟨hNames, hNode⟩, rfl⟩

------------------------------------------------------------
-- Spellings That Reach Everything
------------------------------------------------------------

/-
  Whether a spelling of a directory reaches all that restoring
  has to deal with there: the roots are searched, and no
  folder or copy below them has too long a path.
-/
def Reaches (d : Disk) (l : Location) (path : Path) : Prop :=
  ∀ root ∈ roots, ∃ top,
    searched? ⟨path.segments ++ [root]⟩ = some top ∧
      ∀ names n,
        d.node? (l ++ [root] ++ names) = some n →
          n = .folder ∨ endsInBackup names = true →
            (⟨top.segments ++ names⟩ : Path).text.utf8ByteSize ≤
              Disk.maxPathBytes

/-
  A spelling reaches everything if no listed place has too
  long a path under it.
-/
theorem reaches_of_keys
    (top : String → Path)
    (hSearched :
      ∀ root ∈ roots,
        searched? ⟨path.segments ++ [root]⟩ = some (top root))
    (hSizes :
      ∀ root ∈ roots, ∀ x ∈ Assoc.keys d.nodes,
        (⟨(top root).segments ++ x.drop (l.length + 1)⟩ :
            Path).text.utf8ByteSize ≤ Disk.maxPathBytes) :
    Reaches d l path := by
  intro root hRoot
  refine ⟨top root, hSearched root hRoot, ?_⟩
  intro names n hNode _
  have hKey := Disk.mem_keys_of_node? (by simp) hNode
  simpa using hSizes root hRoot _ hKey

/-
  A spelling goes on to reach everything as long as no folder
  and no copy is added.
-/
theorem Reaches.mono
    (hReaches : Reaches d l path)
    {next : Disk}
    (hOld :
      ∀ x n,
        next.node? x = some n →
          n = .folder ∨ endsInBackup x = true →
            d.node? x = some n) :
    Reaches next l path := by
  intro root hRoot
  rcases hReaches root hRoot with ⟨top, hSearched, hSizes⟩
  refine ⟨top, hSearched, ?_⟩
  intro names n hNode hKind
  apply hSizes names n ?_ hKind
  apply hOld _ n hNode
  rcases hKind with hFolder | hCopy
  · exact Or.inl hFolder
  · right
    by_cases hNames : names = []
    · simp [hNames] at hCopy
    · rw [endsInBackup_append _ hNames]
      exact hCopy

/-
  Then the candidates of a root are all that is below it, each
  under the searched path.
-/
theorem Reaches.candidates_eq
    (hTree : d.WellFormed)
    (hReaches : Reaches d l path)
    (hDirectory : d.locate path = .ok l)
    (hRoot : root ∈ roots) :
    ∃ top : Path,
      (∀ names n,
        d.node? (l ++ [root] ++ names) = some n →
          n = .folder ∨ endsInBackup names = true →
            d.locate ⟨top.segments ++ names⟩ =
              .ok (l ++ [root] ++ names)) ∧
        candidates d path root =
          (d.below (l ++ [root])).map fun entry =>
            (⟨top.segments ++ entry.1⟩, entry.2) := by
  rcases hReaches root hRoot with ⟨top, hSearched, hSizes⟩
  have hSpelled := (locate_eq_ok_iff.mp hDirectory).1
  have hTop :
      d.node? (l ++ [root]) = some .folder →
        d.locate top = .ok (l ++ [root]) := by
    intro hFolder
    have hSize : top.text.utf8ByteSize ≤ Disk.maxPathBytes := by
      simpa using
        hSizes [] .folder (by simpa using hFolder) (Or.inl rfl)
    apply locate_eq_ok_iff.mpr
    refine
      ⟨isSpelled_searched hSpelled hRoot hSearched hSize, ?_⟩
    apply (follow_searched_iff hDirectory hRoot hSearched).mpr
    exact ⟨hTree.folder_of_append (by simp) hFolder, rfl⟩
  refine ⟨top, ?_, ?_⟩
  · intro names n hNode hKind
    have hFolder : d.node? (l ++ [root]) = some .folder := by
      by_cases hNames : names = []
      · subst hNames
        rcases hKind with rfl | hCopy
        · simpa using hNode
        · simp at hCopy
      · exact hTree.folder_of_append hNames hNode
    exact
      locate_below_searched hTree (hTop hFolder) hNode
        (hSizes names n hNode hKind)
  · unfold candidates
    rw [hSearched]
    by_cases hFolder : d.node? (l ++ [root]) = some .folder
    · simp only [hTop hFolder, hFolder, if_true]
    · rw [Disk.below_eq_nil hTree hFolder, List.map_nil]
      cases hLocate : d.locate top with
      | error e => simp only [hLocate]
      | ok place =>
          have hPlace :=
            ((follow_searched_iff hDirectory hRoot
              hSearched).mp (locate_eq_ok_iff.mp hLocate).2).2
          subst hPlace
          simp only [hLocate, hFolder, if_false]

end Backup

end LootFilter
