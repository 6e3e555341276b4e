import LootFilter.BaseSet
import Mathlib.Data.List.Induction
import Mathlib.Data.List.Nodup

/-
  Lists whose repetitions are dropped.

  A set of base types that is filled from a list holds the
  elements of the list, each at its first place.  All of this
  is told by what one more element at the end does.

  Main declarations:
    * `eraseDups_concat`
    * `nodup_eraseDups`
    * `BaseSet.toList_ofList`
    * `BaseSet.pairwise_ofList`
-/

namespace LootFilter

------------------------------------------------------------
-- Lists Without Repetitions
------------------------------------------------------------

section FirstOccurrences

variable {α : Type} [BEq α] [LawfulBEq α]

/- A last element counts if it did not occur before. -/
theorem eraseDups_concat (as : List α) (a : α) :
    (as ++ [a]).eraseDups =
      if a ∈ as then as.eraseDups else as.eraseDups ++ [a] := by
  rw [List.eraseDups_append]
  by_cases hMem : a ∈ as
  · simp [hMem, List.removeAll]
  · simp [hMem, List.removeAll, List.eraseDups_cons]

/- First occurrences are distinct. -/
theorem nodup_eraseDups (as : List α) :
    as.eraseDups.Nodup := by
  induction as using List.reverseRecOn with
  | nil => simp
  | append_singleton as a ih =>
      rw [eraseDups_concat]
      split
      · exact ih
      · rename_i hNew
        have hApart : ∀ b ∈ as, b ≠ a :=
          fun b hMem hEq => hNew (hEq ▸ hMem)
        simpa [List.nodup_append, ih] using hApart

/- Of an element that is repeated, one is left. -/
theorem eraseDups_eq_singleton
    {a : α}
    {as : List α}
    (hSome : as ≠ [])
    (hAll : ∀ b ∈ as, b = a) :
    as.eraseDups = [a] := by
  cases as with
  | nil => exact absurd rfl hSome
  | cons b as =>
      rw [List.forall_mem_cons] at hAll
      have hNone : (as.filter fun c => !c == b) = [] := by
        rw [List.filter_eq_nil_iff]
        intro c hMem
        simp [hAll.1, hAll.2 c hMem]
      rw [List.eraseDups_cons, hNone, hAll.1]
      rfl

end FirstOccurrences

------------------------------------------------------------
-- Sets From Lists
------------------------------------------------------------

namespace BaseSet

/- Adding lists is adding one after the other. -/
theorem extend_append
    (s : BaseSet)
    (a b : List String) :
    s.extend (a ++ b) = (s.extend a).extend b :=
  List.foldl_append

/- The members of a list and of more. -/
theorem ofList_append
    (a b : List String) :
    ofList (a ++ b) = (ofList a).extend b :=
  extend_append empty a b

/- The members of a set from a list are those of the list. -/
theorem mem_toList_ofList
    {b : String}
    {bases : List String} :
    b ∈ (ofList bases).toList ↔ b ∈ bases := by
  rw [← mem_def, ofList, mem_extend]
  simp

/- One more element is added if it is new. -/
theorem ofList_concat
    (bases : List String)
    (base : String) :
    ofList (bases ++ [base]) = (ofList bases).insert base :=
  ofList_append bases [base]

/- The members are the elements at their first places. -/
theorem toList_ofList (bases : List String) :
    (ofList bases).toList = bases.eraseDups := by
  induction bases using List.reverseRecOn with
  | nil => rfl
  | append_singleton bases base ih =>
      rw [ofList_concat, eraseDups_concat, insert, ← ih]
      by_cases hOld : base ∈ (ofList bases).toList
      · rw [dif_pos hOld, if_pos (mem_toList_ofList.mp hOld)]
      · rw [dif_neg hOld,
          if_neg (fun h => hOld (mem_toList_ofList.mpr h))]

/- The members come in the order of their first places. -/
theorem pairwise_ofList (bases : List String) :
    (ofList bases).toList.Pairwise
      fun a b => bases.idxOf a < bases.idxOf b := by
  induction bases using List.reverseRecOn with
  | nil => exact List.Pairwise.nil
  | append_singleton bases base ih =>
      have hOld :
          (ofList bases).toList.Pairwise fun a b =>
            (bases ++ [base]).idxOf a <
              (bases ++ [base]).idxOf b := by
        apply ih.imp_of_mem
        intro a b hA hB hLt
        rw [mem_toList_ofList] at hA hB
        rw [List.idxOf_append, List.idxOf_append, if_pos hA,
          if_pos hB]
        exact hLt
      rw [ofList_concat, insert]
      split
      · exact hOld
      · rename_i hNew
        rw [mem_toList_ofList] at hNew
        apply List.pairwise_append.mpr
        refine ⟨hOld, List.pairwise_singleton _ _, ?_⟩
        intro a hA b hB
        rw [List.mem_singleton] at hB
        subst hB
        rw [mem_toList_ofList] at hA
        rw [List.idxOf_append, List.idxOf_append, if_pos hA,
          if_neg hNew]
        exact
          Nat.lt_of_lt_of_le (List.idxOf_lt_length_of_mem hA)
            (Nat.le_add_left _ _)

end BaseSet

end LootFilter
