import LootFilter.Proofs.Disk.Tree
import Mathlib.Order.Lattice
import Mathlib.Data.List.Lex

/-
  The order in which a folder is listed.

  Names are compared by their characters and locations by
  their names, so both orders are the lexicographic one on
  lists of numbers.  A listing is sorted by it, and a name
  comes before every longer name that it starts.

  Main declarations:
    * `Location.le_iff`
    * `Location.not_le_of_append`
    * `Disk.pairwise_below`
-/

namespace LootFilter

/-
  Lists are compared by the keys of their parts, if the parts
  are and different parts have different keys.
-/
theorem lex_eq_true_iff
    {α β : Type}
    [BEq α] [LawfulBEq α] [LinearOrder β]
    {key : α → β}
    (hKey : Function.Injective key)
    {lt : α → α → Bool}
    (hLt : ∀ a b, lt a b = true ↔ key a < key b)
    (as bs : List α) :
    as.lex bs lt = true ↔ as.map key < bs.map key := by
  induction as generalizing bs with
  | nil => cases bs <;> simp
  | cons a as ih =>
      cases bs with
      | nil => simp
      | cons b bs =>
          rw [List.cons_lex_cons, Bool.or_eq_true,
            Bool.and_eq_true, beq_iff_eq, hLt, ih,
            List.map_cons, List.map_cons,
            List.cons_lt_cons_iff, hKey.eq_iff]

/- The numbers by which a name is compared. -/
def nameKey (name : String) : List Nat :=
  name.toList.map Char.toNat

/- Characters are told apart by their numbers. -/
theorem charToNat_injective :
    Function.Injective Char.toNat :=
  fun _ _ => Char.toNat_inj.mp

/- Different names are compared by different numbers. -/
theorem nameKey_injective : Function.Injective nameKey := by
  intro a b hEq
  apply String.toList_injective
  exact List.map_injective_iff.mpr charToNat_injective hEq

/- Names are compared by their numbers. -/
theorem nameLt_iff (a b : String) :
    nameLt a b = true ↔ nameKey a < nameKey b :=
  lex_eq_true_iff charToNat_injective
    (fun _ _ => decide_eq_true_iff) a.toList b.toList

/- A location is compared by the numbers of its names. -/
theorem Location.le_iff {a b : Location} :
    Location.le a b = true ↔
      a.map nameKey ≤ b.map nameKey := by
  rw [Location.le, Bool.not_eq_true', ← Bool.not_eq_true,
    lex_eq_true_iff nameKey_injective nameLt_iff, not_lt]

/- A name comes before the longer names that it starts. -/
theorem nameKey_lt_append
    (stem : String)
    {ending : String}
    (hEnding : ending ≠ "") :
    nameKey stem < nameKey (stem ++ ending) := by
  have hMore : [] < nameKey ending := by
    have hNumbers : nameKey ending ≠ [] := by
      simpa [nameKey] using hEnding
    rcases List.exists_cons_of_ne_nil hNumbers with
      ⟨first, rest, hEq⟩
    rw [hEq]
    exact List.nil_lt_cons first rest
  have hBoth :=
    List.Lex.append_left (· < ·) hMore (nameKey stem)
  simpa [nameKey] using hBoth

/- So it does as the last name of a location. -/
theorem Location.not_le_of_append
    (parent : Location)
    (stem : String)
    {ending : String}
    (hEnding : ending ≠ "") :
    ¬ Location.le (parent ++ [stem ++ ending])
      (parent ++ [stem]) = true := by
  rw [Location.le_iff, not_le, List.map_append,
    List.map_append]
  apply List.Lex.append_left
  exact List.Lex.rel (nameKey_lt_append stem hEnding)

namespace Disk

/- What is below a place is listed in order. -/
theorem pairwise_below (d : Disk) (l : Location) :
    (d.below l).Pairwise fun a b =>
      Location.le a.1 b.1 = true := by
  unfold below
  apply List.pairwise_mergeSort
  · intro a b c hAB hBC
    exact
      Location.le_iff.mpr
        ((Location.le_iff.mp hAB).trans
          (Location.le_iff.mp hBC))
  · intro a b
    rw [Bool.or_eq_true, Location.le_iff, Location.le_iff]
    exact le_total _ _

end Disk

end LootFilter
