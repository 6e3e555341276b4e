import LootFilter.Disk.Basic
import Mathlib.Data.List.Induction
import Mathlib.Data.List.Nodup

/-
  Well-formed trees, and what stands where after a file is
  put at a place or moved to another.

  In a well-formed tree every place has a folder above it, so
  nothing stands below a file.  This is what makes moving a
  file touch no more than its old and its new place.

  Main declarations:
    * `Disk.NamesEntry`, `Disk.IsName` and `Disk.IsPlace`
    * `Disk.WellFormed`
    * `Disk.node?_put` and `Disk.WellFormed.put`
    * `Disk.node?_relocate` and `Disk.WellFormed.relocate`
    * `Disk.mem_below_iff`
-/

namespace LootFilter

namespace Disk

------------------------------------------------------------
-- Well-Formed Trees
------------------------------------------------------------

/- Whether a segment names something in a folder. -/
def NamesEntry (segment : String) : Prop :=
  segment ≠ "" ∧ segment ≠ "." ∧ segment ≠ ".."

instance (segment : String) :
    Decidable (NamesEntry segment) := by
  unfold NamesEntry
  infer_instance

/- A name that something in a tree can have. -/
def IsName (name : String) : Prop :=
  NamesEntry name ∧
    name.utf8ByteSize ≤ maxNameBytes ∧
    '\x00' ∉ name.toList

instance (name : String) : Decidable (IsName name) := by
  unfold IsName
  infer_instance

/- What a proper name starts with is one if it names something. -/
theorem IsName.of_append
    {name ending : String}
    (hName : NamesEntry name)
    (hLong : IsName (name ++ ending)) :
    IsName name := by
  rcases hLong with ⟨_, hSize, hNul⟩
  refine ⟨hName, ?_, ?_⟩
  · rw [String.utf8ByteSize_append] at hSize
    omega
  · intro hMem
    apply hNul
    rw [String.toList_append]
    exact List.mem_append_left _ hMem

/- A location with names that can stand in a tree. -/
def IsPlace (l : Location) : Prop :=
  ∀ name ∈ l, IsName name

instance (l : Location) : Decidable (IsPlace l) := by
  unfold IsPlace
  infer_instance

/-
  A tree as a file system has it: no place is listed twice,
  the root is not listed, what is listed stands in a folder,
  and every name can stand in a tree.
-/
structure WellFormed (d : Disk) : Prop where
  distinct : (Assoc.keys d.nodes).Nodup
  rooted : [] ∉ Assoc.keys d.nodes
  inFolder :
    ∀ l ∈ Assoc.keys d.nodes,
      d.node? l.dropLast = some .folder
  named : ∀ l ∈ Assoc.keys d.nodes, IsPlace l

variable {d : Disk}

/- The root is a folder. -/
@[simp] theorem node?_nil (d : Disk) :
    d.node? [] = some .folder := rfl

/- So a place without a folder is not the root. -/
theorem ne_nil_of_not_folder
    {l : Location}
    (hFree : d.node? l ≠ some .folder) :
    l ≠ [] := by
  rintro rfl
  exact hFree (node?_nil d)

/- Away from the root, what stands at a place is listed. -/
theorem node?_of_ne_nil
    {l : Location}
    (hRoot : l ≠ []) :
    d.node? l = Assoc.find? l d.nodes := by
  simp [node?, hRoot]

/- What stands at a place other than the root is listed. -/
theorem mem_keys_of_node?
    {l : Location}
    {n : Node}
    (hRoot : l ≠ [])
    (hNode : d.node? l = some n) :
    l ∈ Assoc.keys d.nodes := by
  rw [node?_of_ne_nil hRoot] at hNode
  exact
    List.mem_map_of_mem (Assoc.mem_of_find?_eq_some hNode)

namespace WellFormed

/- In a well-formed tree, the list tells what stands where. -/
theorem node?_eq_some_iff
    (hTree : d.WellFormed)
    {l : Location}
    (hRoot : l ≠ [])
    {n : Node} :
    d.node? l = some n ↔ (l, n) ∈ d.nodes := by
  rw [node?_of_ne_nil hRoot]
  exact Assoc.find?_eq_some_iff hTree.distinct

/- Whatever stands at a place has a proper location. -/
theorem isPlace_of_node?
    (hTree : d.WellFormed)
    {l : Location}
    {n : Node}
    (hNode : d.node? l = some n) :
    IsPlace l := by
  by_cases hRoot : l = []
  · subst hRoot
    intro name hName
    cases hName
  · exact hTree.named l (mem_keys_of_node? hRoot hNode)

/-
  Only folders stand above something.  The induction takes
  the names of the upper location's rest from the end.
-/
theorem folder_of_append
    (hTree : d.WellFormed)
    {l names : Location}
    {n : Node}
    (hNames : names ≠ [])
    (hNode : d.node? (l ++ names) = some n) :
    d.node? l = some .folder := by
  induction names using List.reverseRecOn generalizing n with
  | nil => exact absurd rfl hNames
  | append_singleton names name ih =>
      have hKey :
          l ++ (names ++ [name]) ∈ Assoc.keys d.nodes :=
        mem_keys_of_node? (by simp) hNode
      have hAbove :
          d.node? (l ++ names) = some .folder := by
        have hFolder := hTree.inFolder _ hKey
        rwa [← List.append_assoc, List.dropLast_concat]
          at hFolder
      by_cases hLast : names = []
      · simpa [hLast] using hAbove
      · exact ih hLast hAbove

/- Nothing stands below a place that is no folder. -/
theorem eq_of_prefix
    (hTree : d.WellFormed)
    {l place : Location}
    (hFolder : d.node? l ≠ some .folder)
    (hKey : place ∈ Assoc.keys d.nodes)
    (hPrefix : l <+: place) :
    place = l := by
  rcases hPrefix with ⟨names, rfl⟩
  by_cases hNames : names = []
  · simp [hNames]
  · rcases List.mem_map.mp hKey with ⟨⟨place, n⟩, hMem, rfl⟩
    have hRoot : l ++ names ≠ [] := by simp [hNames]
    have hNode : d.node? (l ++ names) = some n :=
      (hTree.node?_eq_some_iff hRoot).mpr hMem
    exact absurd (hTree.folder_of_append hNames hNode) hFolder

end WellFormed

------------------------------------------------------------
-- Putting
------------------------------------------------------------

/- What stands where after something is put at a place. -/
theorem node?_put
    {l : Location}
    (hRoot : l ≠ [])
    (n : Node)
    (x : Location) :
    (d.put l n).node? x =
      if x = l then some n else d.node? x := by
  by_cases hX : x = []
  · subst hX
    simp [Ne.symm hRoot]
  · rw [node?_of_ne_nil hX]
    by_cases hEq : x = l
    · subst hEq
      simp [put]
    · rw [if_neg hEq, node?_of_ne_nil hX]
      exact Assoc.find?_set_of_ne hEq n d.nodes

/- Putting what stands at a place changes nothing. -/
theorem put_of_node?
    {l : Location}
    (hRoot : l ≠ [])
    {n : Node}
    (hNode : d.node? l = some n) :
    d.put l n = d := by
  rw [node?_of_ne_nil hRoot] at hNode
  rw [put, Assoc.set_of_find? hNode]

/- The listed places after something is put at a place. -/
theorem mem_keys_put
    {l x : Location}
    {n : Node} :
    x ∈ Assoc.keys (d.put l n).nodes ↔
      x = l ∨ x ∈ Assoc.keys d.nodes := by
  simp only [put, Assoc.keys_set]
  split
  · rename_i hKey
    constructor
    · exact Or.inr
    · rintro (rfl | hMem)
      · exact hKey
      · exact hMem
  · simp [or_comm]

/-
  A file can be put at any proper place in a folder that is
  not a folder itself.
-/
theorem WellFormed.put
    (hTree : d.WellFormed)
    {parent : Location}
    {name : String}
    (hParent : d.node? parent = some .folder)
    (hPlace : IsPlace (parent ++ [name]))
    (hFree : d.node? (parent ++ [name]) ≠ some .folder)
    (bytes : ByteArray) :
    (d.put (parent ++ [name]) (.file bytes)).WellFormed where
  distinct := by
    simp only [Disk.put, Assoc.keys_set]
    split
    · exact hTree.distinct
    · rename_i hKey
      simpa using hTree.distinct.concat hKey
  rooted := by
    intro hMem
    rcases mem_keys_put.mp hMem with hEq | hOld
    · simp at hEq
    · exact hTree.rooted hOld
  inFolder := by
    intro l hMem
    have hAbove : d.node? l.dropLast = some .folder := by
      rcases mem_keys_put.mp hMem with rfl | hOld
      · simpa using hParent
      · exact hTree.inFolder l hOld
    rw [node?_put (by simp)]
    by_cases hEq : l.dropLast = parent ++ [name]
    · rw [hEq] at hAbove
      exact absurd hAbove hFree
    · rw [if_neg hEq]
      exact hAbove
  named := by
    intro l hMem
    rcases mem_keys_put.mp hMem with rfl | hOld
    · exact hPlace
    · exact hTree.named l hOld

------------------------------------------------------------
-- Moving
------------------------------------------------------------

/- The names below a location lead from it to the place. -/
theorem relative?_eq_some_iff
    {l place names : Location} :
    relative? l place = some names ↔ place = l ++ names := by
  induction l generalizing place with
  | nil => simp [relative?, eq_comm]
  | cons name l ih =>
      cases place with
      | nil => simp [relative?]
      | cons other place =>
          by_cases hEq : name = other
          · simp [relative?, hEq, ih]
          · simp [relative?, hEq, Ne.symm hEq]

/- No names lead to a place that is not below a location. -/
theorem relative?_eq_none_iff
    {l place : Location} :
    relative? l place = none ↔ ¬ l <+: place := by
  constructor
  · rintro hNone ⟨names, hEq⟩
    rw [relative?_eq_some_iff.mpr hEq.symm] at hNone
    cases hNone
  · intro hPrefix
    cases hRelative : relative? l place with
    | none => rfl
    | some names =>
        exact absurd
          ⟨names, (relative?_eq_some_iff.mp hRelative).symm⟩
          hPrefix

section Relocate

variable {s t : Location} {bytes : ByteArray}

/-
  A move of a file takes the new place from whatever stands
  there and gives it to the file; the rest of the list stays.
-/
theorem nodes_relocate
    (hTree : d.WellFormed)
    (hSource : d.node? s ≠ some .folder)
    (hTarget : d.node? t ≠ some .folder) :
    (d.relocate s t).nodes =
      (d.nodes.filter (·.1 ≠ t)).map fun entry =>
        (if entry.1 = s then t else entry.1, entry.2) := by
  have hKept :
      ∀ entry ∈ d.nodes,
        (!t.isPrefixOf entry.1) = decide (entry.1 ≠ t) := by
    intro entry hMem
    rw [Bool.eq_iff_iff, Bool.not_eq_true',
      decide_eq_true_iff, ← Bool.not_eq_true,
      List.isPrefixOf_iff_prefix]
    apply not_congr
    constructor
    · exact hTree.eq_of_prefix hTarget
        (List.mem_map_of_mem hMem)
    · intro hEq
      exact hEq ▸ List.prefix_refl _
  simp only [relocate, take]
  rw [List.filter_congr hKept]
  apply List.map_congr_left
  rintro ⟨place, n⟩ hMem
  have hKey : place ∈ Assoc.keys d.nodes :=
    List.mem_map_of_mem (List.mem_of_mem_filter hMem)
  cases hRelative : relative? s place with
  | none =>
      have hNe : place ≠ s := by
        rintro rfl
        exact relative?_eq_none_iff.mp hRelative
          (List.prefix_refl _)
      simp [hNe]
  | some names =>
      have hPlace : place = s ++ names :=
        relative?_eq_some_iff.mp hRelative
      have hSame : place = s :=
        hTree.eq_of_prefix hSource hKey
          ⟨names, hPlace.symm⟩
      have hNames : names = [] := by
        simpa [hSame] using hPlace
      simp [hSame, hNames]

/- What is listed after a move of a file. -/
theorem mem_relocate_iff
    (hTree : d.WellFormed)
    (hSource : d.node? s = some (.file bytes))
    (hTarget : d.node? t ≠ some .folder)
    (hNe : s ≠ t)
    {x : Location}
    {n : Node} :
    (x, n) ∈ (d.relocate s t).nodes ↔
      (x = t ∧ n = .file bytes) ∨
        (x ≠ s ∧ x ≠ t ∧ (x, n) ∈ d.nodes) := by
  have hRoot : s ≠ [] := by
    rintro rfl
    simp at hSource
  rw [nodes_relocate hTree (by simp [hSource]) hTarget]
  simp only [List.mem_map, List.mem_filter,
    decide_eq_true_eq]
  constructor
  · rintro ⟨⟨place, m⟩, ⟨hMem, hPlace⟩, hMoved⟩
    by_cases hEq : place = s
    · subst hEq
      have hNode : d.node? place = some m :=
        (hTree.node?_eq_some_iff hRoot).mpr hMem
      rw [hSource] at hNode
      cases hNode
      simp only [if_true, Prod.mk.injEq] at hMoved
      exact Or.inl ⟨hMoved.1.symm, hMoved.2.symm⟩
    · simp only [hEq, if_false, Prod.mk.injEq] at hMoved
      rcases hMoved with ⟨rfl, rfl⟩
      exact Or.inr ⟨hEq, hPlace, hMem⟩
  · rintro (⟨rfl, rfl⟩ | ⟨hX, hXT, hMem⟩)
    · refine ⟨(s, .file bytes), ⟨?_, hNe⟩, by simp⟩
      exact (hTree.node?_eq_some_iff hRoot).mp hSource
    · exact ⟨(x, n), ⟨hMem, hXT⟩, by simp [hX]⟩

/- A move of a file keeps the listed places distinct. -/
theorem nodup_keys_relocate
    (hTree : d.WellFormed)
    (hSource : d.node? s ≠ some .folder)
    (hTarget : d.node? t ≠ some .folder) :
    (Assoc.keys (d.relocate s t).nodes).Nodup := by
  rw [nodes_relocate hTree hSource hTarget]
  simp only [Assoc.keys, List.map_map]
  have hNodup :
      ((d.nodes.filter (·.1 ≠ t)).map Prod.fst).Nodup :=
    hTree.distinct.sublist
      (List.filter_sublist.map Prod.fst)
  have hMoved :
      (((d.nodes.filter (·.1 ≠ t)).map Prod.fst).map
        fun place => if place = s then t else place).Nodup := by
    apply hNodup.map_on
    intro a hA b hB hEq
    have hAT : a ≠ t := by
      rcases List.mem_map.mp hA with ⟨entry, hMem, rfl⟩
      simpa using (List.mem_filter.mp hMem).2
    have hBT : b ≠ t := by
      rcases List.mem_map.mp hB with ⟨entry, hMem, rfl⟩
      simpa using (List.mem_filter.mp hMem).2
    grind
  simpa [List.map_map, Function.comp_def] using hMoved

/- What stands where after a move of a file. -/
theorem node?_relocate
    (hTree : d.WellFormed)
    (hSource : d.node? s = some (.file bytes))
    (hTarget : d.node? t ≠ some .folder)
    (hNe : s ≠ t)
    (x : Location) :
    (d.relocate s t).node? x =
      if x = t then some (.file bytes)
      else if x = s then none
      else d.node? x := by
  have hTargetRoot : t ≠ [] := by
    rintro rfl
    simp at hTarget
  by_cases hRoot : x = []
  · subst hRoot
    have hSourceRoot : s ≠ [] := by
      rintro rfl
      simp at hSource
    simp [Ne.symm hTargetRoot, Ne.symm hSourceRoot]
  · apply Option.ext
    intro n
    rw [node?_of_ne_nil hRoot,
      Assoc.find?_eq_some_iff
        (nodup_keys_relocate hTree (by simp [hSource])
          hTarget),
      mem_relocate_iff hTree hSource hTarget hNe]
    by_cases hXT : x = t
    · simp [hXT, eq_comm]
    · by_cases hXS : x = s
      · simp [hXS, hNe]
      · simp [hXT, hXS, hTree.node?_eq_some_iff hRoot]

/-
  A file can be moved to any proper place in a folder that is
  not a folder itself.
-/
theorem WellFormed.relocate
    (hTree : d.WellFormed)
    (hSource : d.node? s = some (.file bytes))
    {parent : Location}
    {name : String}
    (hParent : d.node? parent = some .folder)
    (hPlace : IsPlace (parent ++ [name]))
    (hFree : d.node? (parent ++ [name]) ≠ some .folder)
    (hNe : s ≠ parent ++ [name]) :
    (d.relocate s (parent ++ [name])).WellFormed := by
  have hSourceFile : d.node? s ≠ some .folder := by
    simp [hSource]
  have hKeys :
      ∀ l ∈ Assoc.keys
          (d.relocate s (parent ++ [name])).nodes,
        l = parent ++ [name] ∨ l ∈ Assoc.keys d.nodes := by
    intro l hMem
    rcases List.mem_map.mp hMem with ⟨⟨l, n⟩, hEntry, rfl⟩
    rcases (mem_relocate_iff hTree hSource hFree hNe).mp
        hEntry with hNew | hOld
    · exact Or.inl hNew.1
    · exact Or.inr (List.mem_map_of_mem hOld.2.2)
  refine ⟨nodup_keys_relocate hTree hSourceFile hFree,
    ?_, ?_, ?_⟩
  · intro hMem
    rcases hKeys [] hMem with hEq | hOld
    · simp at hEq
    · exact hTree.rooted hOld
  · intro l hMem
    have hAbove : d.node? l.dropLast = some .folder := by
      rcases hKeys l hMem with rfl | hOld
      · simpa using hParent
      · exact hTree.inFolder l hOld
    have hNotTarget : l.dropLast ≠ parent ++ [name] := by
      intro hEq
      exact hFree (hEq ▸ hAbove)
    have hNotSource : l.dropLast ≠ s := by
      intro hEq
      exact hSourceFile (hEq ▸ hAbove)
    rw [node?_relocate hTree hSource hFree hNe,
      if_neg hNotTarget, if_neg hNotSource]
    exact hAbove
  · intro l hMem
    rcases hKeys l hMem with rfl | hOld
    · exact hPlace
    · exact hTree.named l hOld

end Relocate

------------------------------------------------------------
-- Looking Below a Folder
------------------------------------------------------------

/- What is found below a location. -/
theorem mem_below_iff
    (hTree : d.WellFormed)
    {l names : Location}
    {n : Node} :
    (names, n) ∈ d.below l ↔
      names ≠ [] ∧ d.node? (l ++ names) = some n := by
  simp only [below, List.mem_mergeSort, List.mem_filterMap,
    Prod.exists]
  constructor
  · rintro ⟨place, m, hMem, hFound⟩
    cases hRelative : relative? l place with
    | none =>
        rw [hRelative] at hFound
        cases hFound
    | some found =>
        rw [hRelative] at hFound
        cases found with
        | nil => cases hFound
        | cons name rest =>
            cases hFound
            have hPlace := relative?_eq_some_iff.mp hRelative
            subst hPlace
            exact ⟨by simp,
              (hTree.node?_eq_some_iff (by simp)).mpr hMem⟩
  · rintro ⟨hNames, hNode⟩
    refine ⟨l ++ names, n,
      (hTree.node?_eq_some_iff (by simp [hNames])).mp hNode,
      ?_⟩
    rw [relative?_eq_some_iff.mpr rfl]
    cases names with
    | nil => exact absurd rfl hNames
    | cons name rest => rfl

/- The names that lead to something below a location. -/
theorem mem_map_below_iff
    (hTree : d.WellFormed)
    {l names : Location} :
    names ∈ (d.below l).map Prod.fst ↔
      names ≠ [] ∧ d.node? (l ++ names) ≠ none := by
  simp only [List.mem_map, Prod.exists, exists_and_right,
    exists_eq_right, mem_below_iff hTree]
  rw [exists_and_left, Option.ne_none_iff_exists']

/- Nothing is found below a place that is no folder. -/
theorem below_eq_nil
    (hTree : d.WellFormed)
    {l : Location}
    (hFolder : d.node? l ≠ some .folder) :
    d.below l = [] := by
  apply List.eq_nil_iff_forall_not_mem.mpr
  rintro ⟨names, n⟩ hMem
  rcases (mem_below_iff hTree).mp hMem with
    ⟨hNames, hNode⟩
  exact hFolder (hTree.folder_of_append hNames hNode)

/- Nothing is found twice below a location. -/
theorem nodup_below
    (hTree : d.WellFormed)
    (l : Location) :
    ((d.below l).map Prod.fst).Nodup := by
  unfold below
  apply ((List.mergeSort_perm _ _).map Prod.fst).nodup_iff.mpr
  apply List.pairwise_map.mpr
  apply List.pairwise_filterMap.mpr
  apply (List.pairwise_map.mp hTree.distinct).imp
  intro a b hNe x hX y hY hEq
  dsimp only at hX hY
  split at hX
  · cases hX
  · cases hX
  · rename_i name names hA
    cases hX
    split at hY
    · cases hY
    · cases hY
    · rename_i other others hB
      cases hY
      have hNames : name :: names = other :: others := hEq
      rw [← hNames] at hB
      apply hNe
      rw [relative?_eq_some_iff.mp hA,
        relative?_eq_some_iff.mp hB]

end Disk

end LootFilter
