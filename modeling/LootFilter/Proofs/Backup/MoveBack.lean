import LootFilter.Proofs.Backup.Kept
import LootFilter.Proofs.Backup.Shift

/-
  Moving copies back keeps the files.

  A move gives one file its first bytes, takes away its copy
  and touches nothing else.  Without copies the files are the
  first ones.

  Main declarations:
    * `Backup.Kept.movable`
    * `Backup.Kept.moveBack`
    * `Backup.Kept.node?_eq`
-/

namespace LootFilter

namespace Backup

open Disk (WellFormed node?_relocate)

variable {before now : Disk} {dir f l : Location}

------------------------------------------------------------
-- Moving One Copy Back
------------------------------------------------------------

/- In a pristine tree, nothing is at the place of a copy. -/
theorem Pristine.ne_copyPlace
    (hPristine : Pristine before dir)
    (hUnder : UnderRoot dir l)
    (hNode : before.node? l ≠ none)
    (f : Location) :
    l ≠ copyPlace f := by
  rcases hUnder.exists_concat with ⟨parent, name, rfl⟩
  exact (copyPlace_ne (hPristine _ _ hUnder hNode)).symm

/- A copy holds the first bytes of a file that is there. -/
theorem Kept.bytes_of_copied
    (hKept : Kept before dir now)
    (hPristine : Pristine before dir)
    (hCopied : Copied now dir f) :
    ∃ bytes,
      before.node? f = some (.file bytes) ∧
        now.node? (copyPlace f) = some (.file bytes) ∧
        now.node? f ≠ some .folder ∧
        ∀ g, f ≠ copyPlace g := by
  rcases Option.ne_none_iff_exists'.mp hCopied.2 with
    ⟨n, hNode⟩
  rcases hKept.file_of_copy hPristine hCopied.1 hNode with
    ⟨bytes, rfl, hBefore⟩
  refine ⟨bytes, hBefore, hNode, ?_, ?_⟩
  · rw [ne_eq, ← hKept.folders.folder, hBefore]
    simp
  · exact hPristine.ne_copyPlace hCopied.1 (by simp [hBefore])

/- So it can be moved back. -/
theorem Kept.movable
    (hKept : Kept before dir now)
    (hTree : before.WellFormed)
    (hPristine : Pristine before dir)
    (hCopied : Copied now dir f) :
    Movable now f := by
  rcases hKept.bytes_of_copied hPristine hCopied with
    ⟨bytes, hBefore, hCopy, hFree, _⟩
  exact
    ⟨hTree.isPlace_of_node? hBefore, ⟨bytes, hCopy⟩, hFree⟩

/- What stands where after a copy is moved back. -/
theorem Kept.node?_moveBack
    (hKept : Kept before dir now)
    (hPristine : Pristine before dir)
    (hCopied : Copied now dir f)
    (x : Location) :
    (moveBack now f).node? x =
      if x = f then before.node? f
      else if x = copyPlace f then none
      else now.node? x := by
  rcases hKept.bytes_of_copied hPristine hCopied with
    ⟨bytes, hBefore, hCopy, hFree, hNe⟩
  rw [moveBack,
    node?_relocate hKept.tree hCopy hFree (hNe f).symm,
    hBefore]

/- Moving a copy back keeps the files. -/
theorem Kept.moveBack
    (hKept : Kept before dir now)
    (hTree : before.WellFormed)
    (hPristine : Pristine before dir)
    (hCopied : Copied now dir f) :
    Kept before dir (moveBack now f) := by
  rcases hKept.bytes_of_copied hPristine hCopied with
    ⟨bytes, hBefore, hCopy, hFree, hNe⟩
  have hNode := hKept.node?_moveBack hPristine hCopied
  have hMovable := hKept.movable hTree hPristine hCopied
  refine
    ⟨hMovable.wellFormed_moveBack hKept.tree,
      hKept.folders.trans
        (hMovable.sameFolders_moveBack hKept.tree), ?_, ?_⟩
  · intro x old hUnder hOld
    have hNotCopy :=
      hPristine.ne_copyPlace hUnder (by simp [hOld])
    rw [hNode, hNode, if_neg (hNe x).symm]
    by_cases hSame : x = f
    · left
      rw [if_pos hSame, if_pos (congrArg copyPlace hSame),
        ← hSame]
      exact ⟨hOld, rfl⟩
    · have hCopies : copyPlace x ≠ copyPlace f := by
        intro hEq
        exact hSame (copyPlace_injective hEq)
      rw [if_neg hSame, if_neg (hNotCopy f), if_neg hCopies]
      exact hKept.original x old hUnder hOld
  · intro x present hUnder hPresent
    rw [hNode] at hPresent
    by_cases hSame : x = f
    · left
      exact ⟨bytes, hSame ▸ hBefore⟩
    · rw [if_neg hSame] at hPresent
      by_cases hTaken : x = copyPlace f
      · rw [if_pos hTaken] at hPresent
        cases hPresent
      · rw [if_neg hTaken] at hPresent
        exact hKept.noOther x present hUnder hPresent

/- Without copies, the files below the roots are the first. -/
theorem Kept.node?_eq
    (hKept : Kept before dir now)
    (hNone : ∀ f, ¬ Copied now dir f)
    (hUnder : UnderRoot dir l) :
    now.node? l = before.node? l := by
  have hFree : ∀ f, UnderRoot dir f →
      now.node? (copyPlace f) = none := by
    intro f hUnderF
    by_contra hTaken
    exact hNone f ⟨hUnderF, hTaken⟩
  cases hBefore : before.node? l with
  | some n =>
      cases n with
      | folder => exact (hKept.folders.folder l).mp hBefore
      | file bytes =>
          rcases hKept.original l bytes hUnder hBefore with
            hFirst | hSecond
          · exact hFirst.1
          · rw [hFree l hUnder] at hSecond
            cases hSecond.2
  | none =>
      cases hNow : now.node? l with
      | none => rfl
      | some n =>
          cases n with
          | folder =>
              rw [(hKept.folders.folder l).mpr hNow] at hBefore
              cases hBefore
          | file present =>
              rcases hKept.noOther l present hUnder hNow with
                ⟨bytes, hOld⟩ | ⟨m, bytes, rfl, _⟩
              · rw [hBefore] at hOld
                cases hOld
              · rw [hFree m (underRoot_copyPlace_iff.mp hUnder)]
                  at hNow
                cases hNow

end Backup

end LootFilter
