import LootFilter.Proofs.Disk.Tree
import Mathlib.Algebra.GroupWithZero.Nat
import Mathlib.Data.List.TakeWhile

/-
  Where paths lead.

  A path is followed by its folders only, so trees with the
  same folders agree on it, whatever happens to the files.
  The last segment of a path names a place in the folder that
  the segments before it lead to.

  Main declarations:
    * `Disk.SameFolders`
    * `Disk.follow_cons_eq_ok_iff`
    * `Disk.locate_eq_ok_iff`
    * `Disk.SameFolders.locate_eq_ok`
    * `Disk.WellFormed.isPlace_of_locate`
    * `Disk.WellFormed.follow_of_node?`
    * `Disk.exists_parent_of_locate`
-/

namespace LootFilter

/- The location that one segment leads to from another. -/
def Location.advance
    (l : Location)
    (segment : String) : Location :=
  if segment = "" ∨ segment = "." then l
  else if segment = ".." then l.dropLast
  else l ++ [segment]

/- The name of something leads to its place. -/
theorem Location.advance_of_namesEntry
    {name : String}
    (hName : Disk.NamesEntry name)
    (l : Location) :
    l.advance name = l ++ [name] := by
  rcases hName with ⟨hEmpty, hDot, hDots⟩
  simp [advance, hEmpty, hDot, hDots]

namespace Disk

variable {d : Disk}

------------------------------------------------------------
-- Following Segments
------------------------------------------------------------

/-
  The first segment needs a folder to start from; the others
  are followed from where it leads.
-/
theorem follow_cons_eq_ok_iff
    {l m : Location}
    {segment : String}
    {rest : List String} :
    d.follow l (segment :: rest) = .ok m ↔
      d.node? l = some .folder ∧
        segment.utf8ByteSize ≤ maxNameBytes ∧
        d.follow (l.advance segment) rest = .ok m := by
  rw [follow]
  cases hNode : d.node? l with
  | none => simp
  | some n =>
      cases n with
      | file bytes => simp
      | folder =>
          unfold Location.advance
          by_cases hStay : segment = "" ∨ segment = "."
          · have hSize :
                segment.utf8ByteSize ≤ maxNameBytes := by
              rcases hStay with rfl | rfl <;> decide
            simp [hStay, hSize]
          · by_cases hUp : segment = ".."
            · subst hUp
              have hSize :
                  "..".utf8ByteSize ≤ maxNameBytes := by
                decide
              simp [hSize]
            · by_cases hSize :
                  maxNameBytes < segment.utf8ByteSize
              · simp [hStay, hUp, hSize, Nat.not_le.mpr hSize]
              · simp [hStay, hUp, hSize, Nat.not_lt.mp hSize]

/- Following segments and then further ones. -/
theorem follow_append_eq_ok_iff
    {l m : Location}
    {first second : List String} :
    d.follow l (first ++ second) = .ok m ↔
      ∃ middle,
        d.follow l first = .ok middle ∧
          d.follow middle second = .ok m := by
  induction first generalizing l with
  | nil => simp [follow]
  | cons segment rest ih =>
      simp only [List.cons_append, follow_cons_eq_ok_iff, ih]
      constructor
      · rintro ⟨hNode, hSize, middle, hFirst, hSecond⟩
        exact ⟨middle, ⟨hNode, hSize, hFirst⟩, hSecond⟩
      · rintro ⟨middle, ⟨hNode, hSize, hFirst⟩, hSecond⟩
        exact ⟨hNode, hSize, middle, hFirst, hSecond⟩

/- A single segment is followed from a folder. -/
theorem follow_singleton_eq_ok_iff
    {l m : Location}
    {segment : String} :
    d.follow l [segment] = .ok m ↔
      d.node? l = some .folder ∧
        segment.utf8ByteSize ≤ maxNameBytes ∧
        m = l.advance segment := by
  rw [follow_cons_eq_ok_iff]
  simp [follow, eq_comm]

/- Segments that stay in place lead to where they start. -/
theorem follow_staying_iff
    {l m : Location}
    {segments : List String}
    (hStay :
      ∀ segment ∈ segments, segment = "" ∨ segment = ".") :
    d.follow l segments = .ok m ↔
      m = l ∧ (segments = [] ∨ d.node? l = some .folder) := by
  induction segments with
  | nil => simp [follow, eq_comm]
  | cons segment rest ih =>
      rw [List.forall_mem_cons] at hStay
      have hSize : segment.utf8ByteSize ≤ maxNameBytes := by
        rcases hStay.1 with rfl | rfl <;> decide
      rw [follow_cons_eq_ok_iff, Location.advance,
        if_pos hStay.1, ih hStay.2]
      constructor
      · rintro ⟨hFolder, _, hPlace, _⟩
        exact ⟨hPlace, Or.inr hFolder⟩
      · rintro ⟨hPlace, hFolder⟩
        have hThere := hFolder.resolve_left (by simp)
        exact ⟨hThere, hSize, hPlace, Or.inr hThere⟩

/-
  The empty segments of a path that leads somewhere may be
  left out.
-/
theorem follow_filter_nonempty
    {l m : Location}
    {segments : List String}
    (hFollow : d.follow l segments = .ok m) :
    d.follow l (segments.filter (· ≠ "")) = .ok m := by
  induction segments generalizing l with
  | nil => exact hFollow
  | cons segment rest ih =>
      rcases follow_cons_eq_ok_iff.mp hFollow with
        ⟨hNode, hSize, hRest⟩
      by_cases hEmpty : segment = ""
      · subst hEmpty
        simpa [Location.advance] using ih hRest
      · rw [List.filter_cons_of_pos (by simpa using hEmpty)]
        exact follow_cons_eq_ok_iff.mpr
          ⟨hNode, hSize, ih hRest⟩

/-
  The dots in front of a path that leads somewhere may be left
  out.
-/
theorem follow_dropWhile_dot
    {l m : Location}
    {segments : List String}
    (hFollow : d.follow l segments = .ok m) :
    d.follow l (segments.dropWhile (· = ".")) = .ok m := by
  induction segments with
  | nil => exact hFollow
  | cons segment rest ih =>
      by_cases hDot : segment = "."
      · subst hDot
        rcases follow_cons_eq_ok_iff.mp hFollow with
          ⟨_, _, hRest⟩
        simpa using ih (by simpa [Location.advance] using hRest)
      · rw [List.dropWhile_cons_of_neg (by simpa using hDot)]
        exact hFollow

/- Dots that follow a path to a folder lead nowhere else. -/
theorem follow_replicate_dot
    {l : Location}
    (hFolder : d.node? l = some .folder)
    (count : Nat)
    (rest : List String) :
    d.follow l (List.replicate count "." ++ rest) =
      d.follow l rest := by
  induction count with
  | zero => rfl
  | succ count ih =>
      rw [List.replicate_succ, List.cons_append, follow]
      simpa only [hFolder, or_true, if_true] using ih

------------------------------------------------------------
-- Trees With the Same Folders
------------------------------------------------------------

/- Two trees differ in their files only. -/
structure SameFolders (a b : Disk) : Prop where
  home : a.home = b.home
  folder :
    ∀ l, a.node? l = some .folder ↔ b.node? l = some .folder

namespace SameFolders

variable {a b c : Disk}

/- A tree has its own folders. -/
theorem refl (a : Disk) : SameFolders a a :=
  ⟨rfl, fun _ => Iff.rfl⟩

/- Having the same folders goes both ways. -/
theorem symm (h : SameFolders a b) : SameFolders b a :=
  ⟨h.home.symm, fun l => (h.folder l).symm⟩

/- Having the same folders goes from tree to tree. -/
theorem trans
    (hFirst : SameFolders a b)
    (hSecond : SameFolders b c) :
    SameFolders a c :=
  ⟨hFirst.home.trans hSecond.home,
    fun l => (hFirst.folder l).trans (hSecond.folder l)⟩

/- Segments lead to the same place in both trees. -/
theorem follow_eq_ok
    (h : SameFolders a b)
    {l m : Location}
    {segments : List String}
    (hFollow : a.follow l segments = .ok m) :
    b.follow l segments = .ok m := by
  induction segments generalizing l with
  | nil => exact hFollow
  | cons segment rest ih =>
      rcases follow_cons_eq_ok_iff.mp hFollow with
        ⟨hNode, hSize, hRest⟩
      exact follow_cons_eq_ok_iff.mpr
        ⟨(h.folder l).mp hNode, hSize, ih hRest⟩

end SameFolders

------------------------------------------------------------
-- Locating Paths
------------------------------------------------------------

/- Whether the text of a path can be handed to the system. -/
def IsSpelled (p : Path) : Prop :=
  (∀ segment ∈ p.segments, '\x00' ∉ segment.toList) ∧
    p.text.utf8ByteSize ≤ maxPathBytes ∧
    p.segments ≠ [] ∧ p.segments ≠ [""]

/- When a path leads to a place, and to which. -/
theorem locate_eq_ok_iff
    {p : Path}
    {l : Location} :
    d.locate p = .ok l ↔
      IsSpelled p ∧ d.follow (d.start p) p.segments = .ok l := by
  unfold locate IsSpelled
  by_cases hNul :
      ∀ segment ∈ p.segments, '\x00' ∉ segment.toList
  · have hAny :
        ¬ (p.segments.any
            fun s => s.toList.contains '\x00') = true := by
      simpa using hNul
    rw [if_neg hAny]
    by_cases hLong : maxPathBytes < p.text.utf8ByteSize
    · simp [hLong, Nat.not_le.mpr hLong]
    · rw [if_neg hLong]
      by_cases hNone : p.segments = [] ∨ p.segments = [""]
      · rcases hNone with hNone | hNone <;> simp [hNone]
      · rw [if_neg hNone]
        simp only [not_or] at hNone
        exact
          ⟨fun h =>
            ⟨⟨hNul, Nat.not_lt.mp hLong, hNone⟩, h⟩,
            And.right⟩
  · have hAny :
        (p.segments.any
            fun s => s.toList.contains '\x00') = true := by
      simpa using hNul
    rw [if_pos hAny]
    simp [hNul]

/- Trees with the same folders start paths at the same place. -/
theorem SameFolders.start_eq
    {a b : Disk}
    (h : SameFolders a b)
    (p : Path) :
    a.start p = b.start p := by
  unfold start
  rw [h.home]

/- A path leads to the same place in both trees. -/
theorem SameFolders.locate_eq_ok
    {a b : Disk}
    (h : SameFolders a b)
    {p : Path}
    {l : Location}
    (hLocate : a.locate p = .ok l) :
    b.locate p = .ok l := by
  rcases locate_eq_ok_iff.mp hLocate with
    ⟨hSpelled, hFollow⟩
  apply locate_eq_ok_iff.mpr
  refine ⟨hSpelled, ?_⟩
  rw [← h.start_eq p]
  exact h.follow_eq_ok hFollow

------------------------------------------------------------
-- Places of Well-Formed Trees
------------------------------------------------------------

/- Segments lead from a proper location to another. -/
theorem isPlace_of_follow
    {l m : Location}
    {segments : List String}
    (hPlace : IsPlace l)
    (hNul : ∀ segment ∈ segments, '\x00' ∉ segment.toList)
    (hFollow : d.follow l segments = .ok m) :
    IsPlace m := by
  induction segments generalizing l with
  | nil =>
      cases hFollow
      exact hPlace
  | cons segment rest ih =>
      rcases follow_cons_eq_ok_iff.mp hFollow with
        ⟨_, hSize, hRest⟩
      have hHead := hNul segment (by simp)
      have hTail :
          ∀ other ∈ rest, '\x00' ∉ other.toList := by
        intro other hOther
        exact hNul other (List.mem_cons_of_mem _ hOther)
      apply ih ?_ hTail hRest
      intro name hName
      unfold Location.advance at hName
      split at hName
      · exact hPlace name hName
      · rename_i hStay
        split at hName
        · exact hPlace name (List.dropLast_subset _ hName)
        · rename_i hUp
          rcases List.mem_append.mp hName with hOld | hNew
          · exact hPlace name hOld
          · rw [List.mem_singleton] at hNew
            subst hNew
            simp only [not_or] at hStay
            exact
              ⟨⟨hStay.1, hStay.2, hUp⟩, hSize, hHead⟩

/- In a well-formed tree, paths lead to proper locations. -/
theorem WellFormed.isPlace_of_locate
    (hTree : d.WellFormed)
    {p : Path}
    {l : Location}
    (hLocate : d.locate p = .ok l) :
    IsPlace l := by
  rcases locate_eq_ok_iff.mp hLocate with
    ⟨⟨hNul, _, hSome, _⟩, hFollow⟩
  cases hSegments : p.segments with
  | nil => exact absurd hSegments hSome
  | cons segment rest =>
      have hStart : d.node? (d.start p) = some .folder := by
        rw [hSegments] at hFollow
        exact (follow_cons_eq_ok_iff.mp hFollow).1
      exact
        isPlace_of_follow (hTree.isPlace_of_node? hStart)
          hNul hFollow

/- The names of a place lead to it from every place above. -/
theorem WellFormed.follow_of_node?
    (hTree : d.WellFormed)
    {l names : Location}
    {n : Node}
    (hNode : d.node? (l ++ names) = some n) :
    d.follow l names = .ok (l ++ names) := by
  induction names generalizing l with
  | nil => simp [follow]
  | cons name rest ih =>
      have hFolder : d.node? l = some .folder :=
        hTree.folder_of_append (by simp) hNode
      have hName : IsName name :=
        hTree.isPlace_of_node? hNode name (by simp)
      have hAppend :
          l ++ name :: rest = (l ++ [name]) ++ rest := by
        simp
      rw [hAppend] at hNode ⊢
      apply follow_cons_eq_ok_iff.mpr
      refine ⟨hFolder, hName.2.1, ?_⟩
      rw [Location.advance_of_namesEntry hName.1]
      exact ih hNode

------------------------------------------------------------
-- Paths Put Together
------------------------------------------------------------

/- Names written behind a path keep it spelled properly. -/
theorem IsSpelled.append
    {p : Path}
    (hSpelled : IsSpelled p)
    {names : Location}
    (hNames : IsPlace names)
    (hSize :
      (⟨p.segments ++ names⟩ : Path).text.utf8ByteSize ≤
        maxPathBytes) :
    IsSpelled ⟨p.segments ++ names⟩ := by
  rcases hSpelled with ⟨hNul, _, hSome, hNotEmpty⟩
  refine ⟨?_, hSize, by simp [hSome], ?_⟩
  · intro segment hMem
    rcases List.mem_append.mp hMem with hLeft | hRight
    · exact hNul segment hLeft
    · exact (hNames segment hRight).2.2
  · intro hEq
    rcases List.append_eq_singleton_iff.mp hEq with h | h
    · exact hSome h.1
    · exact hNotEmpty h.1

/- Names written behind a path do not make it absolute. -/
theorem isAbsolute_append
    {p : Path}
    (hSpelled : IsSpelled p)
    (names : List String) :
    (⟨p.segments ++ names⟩ : Path).IsAbsolute ↔
      p.IsAbsolute := by
  rcases hSpelled with ⟨_, _, hSome, hNotEmpty⟩
  unfold Path.IsAbsolute
  cases hSegments : p.segments with
  | nil => exact absurd hSegments hSome
  | cons segment rest =>
      cases rest with
      | nil =>
          rw [hSegments] at hNotEmpty
          simp only [ne_eq, List.cons.injEq, and_true]
            at hNotEmpty
          simp [hNotEmpty]
      | cons other rest => simp

/- Names written behind a path do not change its start. -/
theorem start_append
    {p : Path}
    (hSpelled : IsSpelled p)
    (names : List String) :
    d.start ⟨p.segments ++ names⟩ = d.start p := by
  unfold start
  simp only [isAbsolute_append hSpelled names]

/-
  Names written behind a path are followed from where the path
  leads.
-/
theorem locate_append_eq_ok_iff
    {p : Path}
    {l m : Location}
    {names : List String}
    (hLocate : d.locate p = .ok l)
    (hSpelled : IsSpelled ⟨p.segments ++ names⟩) :
    d.locate ⟨p.segments ++ names⟩ = .ok m ↔
      d.follow l names = .ok m := by
  rcases locate_eq_ok_iff.mp hLocate with
    ⟨hPath, hFollow⟩
  rw [locate_eq_ok_iff, start_append hPath,
    follow_append_eq_ok_iff]
  constructor
  · rintro ⟨_, middle, hMiddle, hNames⟩
    rw [hFollow] at hMiddle
    cases hMiddle
    exact hNames
  · intro hNames
    exact ⟨hSpelled, l, hFollow, hNames⟩

------------------------------------------------------------
-- Last Names
------------------------------------------------------------

/-
  A path that ends in a name leads to that name in the folder
  that the rest of the path leads to.
-/
theorem exists_parent_of_locate
    {p : Path}
    {l : Location}
    {segments : List String}
    {name : String}
    (hPath : p.segments = segments ++ [name])
    (hName : NamesEntry name)
    (hLocate : d.locate p = .ok l) :
    ∃ parent,
      d.follow (d.start p) segments = .ok parent ∧
        d.node? parent = some .folder ∧
        l = parent ++ [name] := by
  have hFollow := (locate_eq_ok_iff.mp hLocate).2
  rw [hPath, follow_append_eq_ok_iff] at hFollow
  rcases hFollow with ⟨parent, hParent, hLast⟩
  rcases follow_singleton_eq_ok_iff.mp hLast with
    ⟨hFolder, _, hEq⟩
  rw [Location.advance_of_namesEntry hName] at hEq
  exact ⟨parent, hParent, hFolder, hEq⟩

/- The front of a path, and what it leaves out. -/
theorem exists_append_front
    {p : Path}
    {segments : List String}
    {name : String}
    (hPath : p.segments = segments ++ [name]) :
    ∃ rest,
      segments = p.front ++ rest ∧
        (∀ segment ∈ rest, segment = "" ∨ segment = ".") ∧
        (p.front = [] → segments = []) := by
  have hAbove : p.segments.dropLast = segments := by
    rw [hPath, List.dropLast_concat]
  have hStay :
      ∀ segment ∈
          segments.reverse.takeWhile (!Path.isStep ·),
        segment = "" ∨ segment = "." := by
    intro segment hMem
    have hStep := List.mem_takeWhile_imp hMem
    simp only [Path.isStep, Bool.not_eq_true',
      Bool.and_eq_false_iff, bne_eq_false_iff_eq] at hStep
    exact hStep
  have hParts :=
    List.takeWhile_append_dropWhile
      (p := (!Path.isStep ·)) (l := segments.reverse)
  unfold Path.front
  rw [hAbove]
  dsimp only
  split
  · rename_i hNone
    rw [hNone, List.append_nil] at hParts
    rw [hParts] at hStay
    refine
      ⟨segments.drop 1, (List.take_append_drop 1 _).symm, ?_,
        by simp⟩
    intro segment hMem
    exact
      hStay segment
        (List.mem_reverse.mpr (List.mem_of_mem_drop hMem))
  · rename_i hSome
    refine
      ⟨(segments.reverse.takeWhile
          (!Path.isStep ·)).reverse, ?_, ?_, ?_⟩
    · rw [← List.reverse_append, hParts, List.reverse_reverse]
    · intro segment hMem
      exact hStay segment (List.mem_reverse.mp hMem)
    · intro hEmpty
      exact absurd (List.reverse_eq_nil_iff.mp hEmpty) hSome

/- A path is as long as its segments, each with a slash. -/
theorem utf8ByteSize_text
    {p : Path}
    (hSome : p.segments ≠ []) :
    p.text.utf8ByteSize + 1 =
      (p.segments.map (·.utf8ByteSize + 1)).sum := by
  obtain ⟨segments⟩ := p
  have hSlash : String.ofList ['/'] = "/" := rfl
  have hSize : "/".utf8ByteSize = 1 := by decide
  unfold Path.text
  induction segments with
  | nil => exact absurd rfl hSome
  | cons segment rest ih =>
      cases rest with
      | nil => simp [Text.joinWith]
      | cons next more =>
          have hRest := ih (by simp)
          simp only [List.map_cons, Text.joinWith,
            String.ofList_append, String.ofList_toList,
            String.utf8ByteSize_append, List.sum_cons, hSlash,
            hSize] at hRest ⊢
          omega

/- A path with an ending behind its last name. -/
theorem text_concat_append
    (segments : List String)
    (name ending : String) :
    (⟨segments ++ [name ++ ending]⟩ : Path).text =
      (⟨segments ++ [name]⟩ : Path).text ++ ending := by
  unfold Path.text
  induction segments with
  | nil =>
      apply String.toList_injective
      simp [Text.joinWith]
  | cons segment rest ih =>
      have hNext : ∀ last : String,
          Text.joinWith ['/']
              (((segment :: rest) ++ [last]).map
                String.toList) =
            segment.toList ++ ['/'] ++
              Text.joinWith ['/']
                ((rest ++ [last]).map String.toList) := by
        intro last
        cases rest <;> simp [Text.joinWith]
      have hRest := congrArg String.toList ih
      simp only [String.toList_append, String.toList_ofList]
        at hRest
      apply String.toList_injective
      simp only [hNext, hRest, String.toList_append,
        String.toList_ofList, List.append_assoc]

/-
  A path whose last name loses its ending leads to the shorter
  name in the same folder.
-/
theorem locate_of_append_ending
    {segments parent : List String}
    {name ending : String}
    (hName : IsName name)
    (hLong : NamesEntry (name ++ ending))
    (hLocate :
      d.locate ⟨segments ++ [name ++ ending]⟩ =
        .ok (parent ++ [name ++ ending])) :
    d.locate ⟨segments ++ [name]⟩ =
      .ok (parent ++ [name]) := by
  rcases locate_eq_ok_iff.mp hLocate with
    ⟨⟨hNul, hSize, _, _⟩, _⟩
  rcases exists_parent_of_locate rfl hLong hLocate with
    ⟨other, hFollow, hFolder, hEq⟩
  have hParent : parent = other :=
    (List.append_inj' hEq rfl).1
  subst hParent
  have hStart :
      d.start ⟨segments ++ [name]⟩ =
        d.start ⟨segments ++ [name ++ ending]⟩ := by
    cases segments <;> simp [start, Path.IsAbsolute]
  apply locate_eq_ok_iff.mpr
  refine ⟨⟨?_, ?_, by simp, ?_⟩, ?_⟩
  · intro segment hMem
    rcases List.mem_append.mp hMem with hLeft | hRight
    · exact hNul segment (List.mem_append_left _ hLeft)
    · rw [List.mem_singleton] at hRight
      rw [hRight]
      exact hName.2.2
  · rw [text_concat_append, String.utf8ByteSize_append]
      at hSize
    exact Nat.le_trans (Nat.le_add_right _ _) hSize
  · intro hEmpty
    rcases List.append_eq_singleton_iff.mp hEmpty with
      ⟨_, hLast⟩ | ⟨_, hLast⟩
    · exact hName.1.1 (List.singleton_inj.mp hLast)
    · cases hLast
  · rw [hStart]
    apply follow_append_eq_ok_iff.mpr
    refine ⟨parent, hFollow, ?_⟩
    apply follow_singleton_eq_ok_iff.mpr
    refine ⟨hFolder, hName.2.1, ?_⟩
    rw [Location.advance_of_namesEntry hName.1]

/- Something else in the folder of a path starts where it does. -/
theorem start_withName
    {p : Path}
    {segments : List String}
    {name : String}
    (hPath : p.segments = segments ++ [name])
    (other : String) :
    d.start (p.withName other) = d.start p := by
  rcases exists_append_front hPath with
    ⟨rest, hSegments, _, hEmpty⟩
  have hAbsolute :
      (p.withName other).IsAbsolute ↔ p.IsAbsolute := by
    unfold Path.IsAbsolute Path.withName
    rw [hPath]
    dsimp only
    cases hFront : p.front with
    | nil => simp [hEmpty hFront]
    | cons segment more =>
        rw [hSegments, hFront]
        simp only [List.cons_append, List.head?_cons,
          List.length_cons, List.length_append, List.length_nil]
        exact and_congr_right fun _ => by omega
  unfold start
  simp only [hAbsolute]

/- Its folder is that which the path's segments lead to. -/
theorem follow_front_iff
    {p : Path}
    {segments : List String}
    {name : String}
    (hPath : p.segments = segments ++ [name])
    {l parent : Location}
    (hFolder : d.node? parent = some .folder) :
    d.follow l p.front = .ok parent ↔
      d.follow l segments = .ok parent := by
  rcases exists_append_front hPath with
    ⟨rest, hSegments, hStay, _⟩
  rw [hSegments, follow_append_eq_ok_iff]
  constructor
  · intro hFront
    exact
      ⟨parent, hFront,
        (follow_staying_iff hStay).mpr ⟨rfl, Or.inr hFolder⟩⟩
  · rintro ⟨middle, hFront, hRest⟩
    rw [((follow_staying_iff hStay).mp hRest).1]
    exact hFront

/-
  Something else in the folder of a path leads to its name
  where the path's segments lead.
-/
theorem exists_parent_of_withName
    {p : Path}
    {m : Location}
    {segments : List String}
    {name other : String}
    (hPath : p.segments = segments ++ [name])
    (hOther : NamesEntry other)
    (hPlace : d.locate (p.withName other) = .ok m) :
    ∃ parent,
      d.follow (d.start p) segments = .ok parent ∧
        d.node? parent = some .folder ∧
        m = parent ++ [other] := by
  have hSegments :
      (p.withName other).segments = p.front ++ [other] := rfl
  rcases exists_parent_of_locate hSegments hOther hPlace with
    ⟨parent, hAbove, hFolder, hM⟩
  rw [start_withName hPath, follow_front_iff hPath hFolder]
    at hAbove
  exact ⟨parent, hAbove, hFolder, hM⟩

/-
  A path and something else in its folder lead to two places of
  one folder.
-/
theorem exists_parent_of_locate_withName
    {p : Path}
    {l m : Location}
    {segments : List String}
    {name other : String}
    (hPath : p.segments = segments ++ [name])
    (hName : NamesEntry name)
    (hOther : NamesEntry other)
    (hLocate : d.locate p = .ok l)
    (hPlace : d.locate (p.withName other) = .ok m) :
    ∃ parent,
      d.node? parent = some .folder ∧
        l = parent ++ [name] ∧ m = parent ++ [other] := by
  rcases exists_parent_of_locate hPath hName hLocate with
    ⟨parent, hParent, hFolder, hL⟩
  rcases exists_parent_of_withName hPath hOther hPlace with
    ⟨above, hAbove, _, hM⟩
  rw [hParent] at hAbove
  cases hAbove
  exact ⟨parent, hFolder, hL, hM⟩

/-
  If something else in its folder is found, a path that can be
  handed to the system leads there, too.
-/
theorem exists_locate_of_withName
    {p : Path}
    {m : Location}
    {segments : List String}
    {name other : String}
    (hSpelled : IsSpelled p)
    (hPath : p.segments = segments ++ [name])
    (hName : NamesEntry name)
    (hShorter : name.utf8ByteSize ≤ other.utf8ByteSize)
    (hOther : NamesEntry other)
    (hPlace : d.locate (p.withName other) = .ok m) :
    ∃ l, d.locate p = .ok l := by
  have hSize : other.utf8ByteSize ≤ maxNameBytes := by
    rcases follow_append_eq_ok_iff.mp
        (locate_eq_ok_iff.mp hPlace).2 with
      ⟨_, _, hLast⟩
    exact (follow_singleton_eq_ok_iff.mp hLast).2.1
  rcases exists_parent_of_withName hPath hOther hPlace with
    ⟨parent, hParent, hFolder, _⟩
  refine
    ⟨parent ++ [name],
      locate_eq_ok_iff.mpr ⟨hSpelled, ?_⟩⟩
  rw [hPath]
  apply follow_append_eq_ok_iff.mpr
  refine ⟨parent, hParent, ?_⟩
  apply follow_singleton_eq_ok_iff.mpr
  exact
    ⟨hFolder, Nat.le_trans hShorter hSize,
      (Location.advance_of_namesEntry hName parent).symm⟩

end Disk

end LootFilter
