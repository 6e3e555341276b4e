import LootFilter.Proofs.Backup.Kept

/-
  When two spellings of a path lead to the same place.

  The components of a path say whether it starts at the root
  and which of its segments lead anywhere.  The others are
  followed where they stand, so two documents with the same
  components are in the same place, unless the system refuses
  the longer spelling for its length.

  Main declarations:
    * `Path.components_filter_isStep`
    * `Path.isAbsolute_iff_components`
    * `Path.IsLong`
    * `Disk.follow_filter_isStep`
    * `Disk.locate_eq_ok_iff_of_components`
-/

namespace LootFilter

------------------------------------------------------------
-- What Components Say
------------------------------------------------------------

namespace Path

variable {p q : Path}

/- The components have all the segments that step. -/
theorem components_filter_isStep (p : Path) :
    p.components.filter isStep = p.segments.filter isStep := by
  obtain ⟨segments⟩ := p
  unfold components
  cases segments with
  | nil => rfl
  | cons first rest =>
      dsimp only
      split
      · simp [List.filter_cons]
      · simp

/- A path starts at the root if its first component is empty. -/
theorem isAbsolute_iff_components :
    p.IsAbsolute ↔ p.components.head? = some "" := by
  obtain ⟨segments⟩ := p
  unfold IsAbsolute components
  cases segments with
  | nil => simp
  | cons first rest =>
      have hSome :
          1 < (first :: rest).length ↔ rest ≠ [] := by
        simp [List.length_pos_iff]
      dsimp only
      rw [hSome]
      split
      · rename_i hFirst
        rcases hFirst with rfl | ⟨rfl, hRest⟩
        · simp
        · simpa using hRest
      · rename_i hFirst
        have hSteps :
            ((first :: rest).filter isStep).head? ≠ some "" := by
          intro hHead
          have hMem := List.mem_of_head? hHead
          simp [isStep] at hMem
        simp only [hSteps, iff_false, List.head?_cons,
          Option.some.injEq]
        exact fun hBoth => hFirst (Or.inr hBoth)

/- The name of a document steps. -/
theorem isStep_append_json (stem : String) :
    isStep (stem ++ ".json") = true := by
  rcases Backup.namesEntry_append_json stem with
    ⟨hEmpty, hDot, _⟩
  simp [isStep, hEmpty, hDot]

/- Whether the text of a path is too long for the system. -/
def IsLong (p : Path) : Prop :=
  Disk.maxPathBytes < p.text.utf8ByteSize

instance (p : Path) : Decidable p.IsLong := by
  unfold IsLong
  infer_instance

end Path

------------------------------------------------------------
-- Following Steps
------------------------------------------------------------

namespace Disk

variable {d : Disk} {l m : Location} {p q : Path}
variable {front : List String} {last : String}

/- Segments are followed from a folder. -/
theorem node?_of_follow
    {segments : List String}
    (hSome : segments ≠ [])
    (hFollow : d.follow l segments = .ok m) :
    d.node? l = some .folder := by
  cases segments with
  | nil => exact absurd rfl hSome
  | cons segment rest =>
      exact (follow_cons_eq_ok_iff.mp hFollow).1

/- A segment that does not step is empty or a dot. -/
theorem stays_of_isStep
    {segment : String}
    (hStep : Path.isStep segment = false) :
    segment = "" ∨ segment = "." := by
  simpa [Path.isStep, or_iff_not_imp_left] using hStep

/- In front of a name, only segments that step count. -/
theorem follow_filter_isStep :
    d.follow l (front.filter Path.isStep ++ [last]) = .ok m ↔
      d.follow l (front ++ [last]) = .ok m := by
  induction front generalizing l with
  | nil => rfl
  | cons segment front ih =>
      rw [List.cons_append, follow_cons_eq_ok_iff]
      cases hStep : Path.isStep segment with
      | true =>
          rw [List.filter_cons_of_pos hStep, List.cons_append,
            follow_cons_eq_ok_iff, ih]
      | false =>
          -- A name follows, so a folder is needed anyway.
          have hStay := stays_of_isStep hStep
          have hSize : segment.utf8ByteSize ≤ maxNameBytes := by
            rcases hStay with rfl | rfl <;> decide
          rw [List.filter_cons_of_neg (by simp [hStep]), ih,
            Location.advance, if_pos hStay]
          constructor
          · intro hFollow
            exact
              ⟨node?_of_follow (by simp) hFollow, hSize,
                hFollow⟩
          · exact fun hFollow => hFollow.2.2

/- A document is followed by its segments that step. -/
theorem follow_segments
    (hDocument : p.IsDocument) :
    d.follow l (p.segments.filter Path.isStep) = .ok m ↔
      d.follow l p.segments = .ok m := by
  rcases hDocument with ⟨segments, stem, hPath⟩
  rw [hPath, List.filter_append,
    List.filter_cons_of_pos (Path.isStep_append_json stem)]
  exact follow_filter_isStep

/- A document is spelled by its segments that step. -/
theorem isSpelled_iff
    (hDocument : p.IsDocument) :
    IsSpelled p ↔
      (∀ segment ∈ p.segments.filter Path.isStep,
          '\x00' ∉ segment.toList) ∧
        ¬ p.IsLong := by
  have hNul :
      (∀ segment ∈ p.segments, '\x00' ∉ segment.toList) ↔
        ∀ segment ∈ p.segments.filter Path.isStep,
          '\x00' ∉ segment.toList := by
    constructor
    · intro hAll segment hMem
      exact hAll segment (List.mem_of_mem_filter hMem)
    · intro hSteps segment hMem
      cases hStep : Path.isStep segment with
      | true =>
          exact
            hSteps segment (List.mem_filter.mpr ⟨hMem, hStep⟩)
      | false =>
          rcases stays_of_isStep hStep with rfl | rfl <;>
            decide
  have hSome : p.segments ≠ [] ∧ p.segments ≠ [""] := by
    rcases hDocument with ⟨segments, stem, hPath⟩
    rcases Backup.namesEntry_append_json stem with
      ⟨hEmpty, _⟩
    rw [hPath]
    refine ⟨by simp, ?_⟩
    intro hOne
    have hLast := congrArg List.getLast? hOne
    rw [List.getLast?_concat] at hLast
    exact hEmpty (Option.some.inj hLast)
  unfold IsSpelled Path.IsLong
  rw [hNul, Nat.not_lt]
  simp [hSome]

/-
  Documents with the same components are in the same place, if
  the spellings are both short enough or both too long.
-/
theorem locate_eq_ok_iff_of_components
    (hP : p.IsDocument)
    (hQ : q.IsDocument)
    (hSame : p.components = q.components)
    (hLong : p.IsLong ↔ q.IsLong) :
    d.locate p = .ok l ↔ d.locate q = .ok l := by
  have hSteps :
      p.segments.filter Path.isStep =
        q.segments.filter Path.isStep := by
    rw [← p.components_filter_isStep, hSame,
      q.components_filter_isStep]
  have hStart : d.start p = d.start q := by
    simp only [start, Path.isAbsolute_iff_components, hSame]
  rw [locate_eq_ok_iff, locate_eq_ok_iff, isSpelled_iff hP,
    isSpelled_iff hQ, ← follow_segments hP,
    ← follow_segments hQ, hSteps, hStart, hLong]

end Disk

end LootFilter
