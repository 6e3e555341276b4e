import LootFilter.Proofs.Backup.Kept

/-
  Where the paths of data files lead.

  A path leads to one place, if it leads anywhere: that of its
  segments, one after the other.  The paths of data files are
  put together from the spelling of the directory and names
  behind it, so they lead to these names below the place of
  the directory.  The name of an asset may lead elsewhere; it
  does not if it is relative and never goes up.

  Main declarations:
    * `Disk.place`
    * `Disk.eq_place_of_locate`
    * `Disk.place_stem_append`
    * `Disk.eq_of_locate_below`
    * `DataFile.IsInside`
    * `DataFile.exists_place_asset`
    * `DataFile.exists_of_locate_asset`
-/

namespace LootFilter

/- A path is its stem, with or without a slash at the end. -/
theorem Path.stem_cases (p : Path) :
    p.segments = p.stem ∨ p.segments = p.stem ++ [""] := by
  unfold stem
  split
  · rename_i hLast
    right
    exact (List.dropLast_append_getLast? _ hLast).symm
  · exact Or.inl rfl

/- A path that is its own stem is not empty. -/
theorem Path.stem_ne_singleton
    {p : Path}
    (hSame : p.segments = p.stem) :
    p.stem ≠ [""] := by
  intro hStem
  rw [hStem] at hSame
  simp [stem, hSame] at hStem

/- Names behind a path do not change whether it is absolute. -/
theorem Path.isAbsolute_stem_append
    (p : Path)
    {names : List String}
    (hHead : names.head? ≠ some "")
    (hNames : names ≠ []) :
    (⟨p.stem ++ names⟩ : Path).IsAbsolute ↔ p.IsAbsolute := by
  have hSome := List.length_pos_iff.mpr hNames
  unfold IsAbsolute
  cases hStem : p.stem with
  | nil =>
      have hSegments : ¬ 1 < p.segments.length := by
        rcases p.stem_cases with hSame | hSlash
        · simp [hSame, hStem]
        · simp [hSlash, hStem]
      simp [hHead, hSegments]
  | cons first rest =>
      have hFirst : p.segments.head? = some first := by
        rcases p.stem_cases with hSame | hSlash
        · simp [hSame, hStem]
        · simp [hSlash, hStem]
      have hLong : first = "" → 1 < p.segments.length := by
        rintro rfl
        rcases p.stem_cases with hSame | hSlash
        · have hOne := Path.stem_ne_singleton hSame
          rw [hStem] at hOne
          have hRest : rest ≠ [] := fun h => hOne (by rw [h])
          rw [hSame, hStem]
          simpa [List.length_pos_iff] using hRest
        · simp [hSlash, hStem]
      simp only [hFirst, List.cons_append, List.head?_cons,
        Option.some.injEq, List.length_cons, List.length_append]
      apply and_congr_right
      intro hEmpty
      exact iff_of_true (by omega) (hLong hEmpty)

namespace Disk

variable {d : Disk} {dir l : Location} {path : Path}
variable {names : List String}

------------------------------------------------------------
-- Places of Paths
------------------------------------------------------------

/- The place that the segments of a path lead to. -/
def place (d : Disk) (p : Path) : Location :=
  p.segments.foldl Location.advance (d.start p)

/- Segments that are followed lead where they say. -/
theorem eq_foldl_of_follow
    (hFollow : d.follow dir names = .ok l) :
    l = names.foldl Location.advance dir := by
  induction names generalizing dir with
  | nil =>
      cases hFollow
      rfl
  | cons name names ih =>
      rcases follow_cons_eq_ok_iff.mp hFollow with
        ⟨_, _, hRest⟩
      exact ih hRest

/- A path that is found leads to its place. -/
theorem eq_place_of_locate
    (hLocate : d.locate path = .ok l) :
    l = d.place path :=
  eq_foldl_of_follow (locate_eq_ok_iff.mp hLocate).2

/- Segments that never go up lead down by those that step. -/
theorem foldl_advance_of_notUp
    (hDown : ".." ∉ names)
    (l : Location) :
    names.foldl Location.advance l =
      l ++ names.filter Path.isStep := by
  induction names generalizing l with
  | nil => simp
  | cons name names ih =>
      rw [List.mem_cons, not_or] at hDown
      rw [List.foldl_cons, ih hDown.2]
      unfold Location.advance
      by_cases hStay : name = "" ∨ name = "."
      · have hStep : Path.isStep name = false := by
          rcases hStay with rfl | rfl <;> rfl
        simp [hStay, hStep]
      · have hStep : Path.isStep name = true := by
          simpa [Path.isStep, not_or] using hStay
        simp [hStay, Ne.symm hDown.1, hStep]

/- Names behind a path lead on from its place. -/
theorem place_stem_append
    (d : Disk)
    (path : Path)
    (hHead : names.head? ≠ some "")
    (hNames : names ≠ []) :
    d.place ⟨path.stem ++ names⟩ =
      names.foldl Location.advance (d.place path) := by
  have hStart : d.start ⟨path.stem ++ names⟩ = d.start path := by
    simp only [start, path.isAbsolute_stem_append hHead hNames]
  have hStem :
      path.stem.foldl Location.advance (d.start path) =
        d.place path := by
    unfold place
    rcases path.stem_cases with hSame | hSlash
    · rw [← hSame]
    · -- The slash at the end leads nowhere.
      rw [hSlash, List.foldl_append]
      simp [Location.advance]
  rw [place, List.foldl_append, hStart, hStem]

/- Proper names are followed name by name. -/
theorem filter_isStep_of_isPlace
    (hNames : IsPlace names) :
    names.filter Path.isStep = names ∧ ".." ∉ names := by
  constructor
  · rw [List.filter_eq_self]
    intro name hMem
    have hName := (hNames name hMem).1
    simp [Path.isStep, hName.1, hName.2.1]
  · intro hMem
    exact (hNames _ hMem).1.2.2 rfl

/- A file below a directory has its names behind it. -/
theorem place_below
    (d : Disk)
    (path : Path)
    (hNames : IsPlace names)
    (hSome : names ≠ []) :
    d.place (path.below names) = d.place path ++ names := by
  have hHead : names.head? ≠ some "" := by
    intro hHead
    exact (hNames _ (List.mem_of_mem_head? hHead)).1.1 rfl
  rcases filter_isStep_of_isPlace hNames with ⟨hSteps, hDown⟩
  rw [Path.below, Path.join,
    if_neg (fun hAbsolute => hHead hAbsolute.1),
    place_stem_append d path hHead hSome,
    foldl_advance_of_notUp hDown, hSteps]

/- A file below a directory stands at its names behind it. -/
theorem eq_of_locate_below
    (hDirectory : d.locate path = .ok dir)
    (hNames : IsPlace names)
    (hSome : names ≠ [])
    (hLocate : d.locate (path.below names) = .ok l) :
    l = dir ++ names := by
  rw [eq_place_of_locate hLocate, place_below d path hNames hSome,
    ← eq_place_of_locate hDirectory]

end Disk

------------------------------------------------------------
-- Data Files
------------------------------------------------------------

namespace DataFile

open Disk (eq_of_locate_below)

variable {d : Disk} {dir l : Location} {path : Path}

/- Where the index of assets is. -/
def indexPlace (dir : Location) : Location :=
  dir ++ ["hd", "items", "items.json"]

/- The index of assets is found there. -/
theorem eq_of_locate_assetIndex
    (hDirectory : d.locate path = .ok dir)
    (hLocate : d.locate (assetIndex path) = .ok l) :
    l = indexPlace dir :=
  eq_of_locate_below hDirectory (by decide) (by simp) hLocate

/- The tables of names are below a root, next to no asset. -/
theorem underRoot_of_locate_tables
    (hDirectory : d.locate path = .ok dir)
    (hLocate :
      d.locate (itemNames path) = .ok l ∨
        d.locate (itemRunes path) = .ok l) :
    Backup.UnderRoot dir l ∧ l ≠ indexPlace dir := by
  obtain ⟨last, rfl⟩ :
      ∃ last, l = dir ++ ["local", "lng", "strings", last] := by
    rcases hLocate with hNames | hRunes
    · exact
        ⟨"item-names.json",
          eq_of_locate_below hDirectory (by decide) (by simp)
            hNames⟩
    · exact
        ⟨"item-runes.json",
          eq_of_locate_below hDirectory (by decide) (by simp)
            hRunes⟩
  refine
    ⟨⟨"local", by decide, ["lng", "strings", last], by simp,
      by simp⟩, ?_⟩
  simp [indexPlace]

/- Whether the name of an asset is relative and never goes up. -/
def IsInside (name : String) : Prop :=
  ¬ (Path.ofText name).IsAbsolute ∧
    ".." ∉ (Path.ofText name).segments

/- Then its descriptor is named below the folder of the index. -/
theorem exists_place_asset
    {name : String}
    (hInside : IsInside name)
    (d : Disk)
    (path : Path) :
    ∃ names last,
      d.place (asset path name) =
        d.place path ++ ["hd", "items"] ++
          (names ++ [last ++ ".json"]) := by
  rcases Path.segments_ofText_append name
      (show '/' ∉ ".json".toList by decide) with
    ⟨front, last, hName, hFile⟩
  have hRelative :
      ¬ (Path.ofText (name ++ ".json")).IsAbsolute := by
    have hHead := hInside.1
    unfold Path.IsAbsolute at hHead ⊢
    rw [hName] at hHead
    rw [hFile]
    cases front with
    | nil => simp
    | cons first front => simpa using hHead
  have hPath :
      asset path name =
        ⟨path.stem ++
          (["hd", "items"] ++ (front ++ [last ++ ".json"]))⟩ := by
    have hFolder :
        path.below ["hd", "items"] =
          ⟨path.stem ++ ["hd", "items"]⟩ := by
      simp [Path.below, Path.join, Path.IsAbsolute]
    have hStem :
        (⟨path.stem ++ ["hd", "items"]⟩ : Path).stem =
          path.stem ++ ["hd", "items"] := by
      simp [Path.stem]
    rw [asset, Path.join, if_neg hRelative, hFolder, hStem,
      hFile, List.append_assoc]
  have hLast := Backup.namesEntry_append_json last
  have hDown :
      ".." ∉ ["hd", "items"] ++ (front ++ [last ++ ".json"]) := by
    have hFront : ".." ∉ front := by
      intro hMem
      apply hInside.2
      rw [hName]
      exact List.mem_append_left _ hMem
    simp [hFront, Ne.symm hLast.2.2]
  have hStep : Path.isStep (last ++ ".json") = true := by
    simp [Path.isStep, hLast.1, hLast.2.1]
  have hItems :
      ["hd", "items"].filter Path.isStep = ["hd", "items"] := by
    decide
  refine ⟨front.filter Path.isStep, last, ?_⟩
  rw [hPath, Disk.place_stem_append d path (by simp) (by simp),
    Disk.foldl_advance_of_notUp hDown, List.filter_append,
    List.filter_append, hItems]
  simp [hStep]

/- So it stands below that folder, if it is found. -/
theorem exists_of_locate_asset
    {name : String}
    (hInside : IsInside name)
    (hDirectory : d.locate path = .ok dir)
    (hLocate : d.locate (asset path name) = .ok l) :
    ∃ names last,
      l = dir ++ ["hd", "items"] ++
        (names ++ [last ++ ".json"]) := by
  rw [Disk.eq_place_of_locate hLocate,
    Disk.eq_place_of_locate hDirectory]
  exact exists_place_asset hInside d path

end DataFile

end LootFilter
