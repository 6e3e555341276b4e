/-
  This file looks for one text inside another.

  Key definitions include:
    * `Text.occursIn`
    * `Text.substitute`
-/

namespace LootFilter.Text

------------------------------------------------------------
-- Occurrence
------------------------------------------------------------

/- Whether the first text occurs somewhere in the second. -/
def occursIn (part : List Char) : List Char → Bool
| [] => part.isEmpty
| c :: cs => part.isPrefixOf (c :: cs) || occursIn part cs

/- Occurring is being a contiguous part. -/
theorem occursIn_iff {part cs : List Char} :
    occursIn part cs = true ↔ part <:+: cs := by
  induction cs with
  | nil => simp [occursIn]
  | cons c cs ih =>
      simp only [occursIn, Bool.or_eq_true, ih,
        List.isPrefixOf_iff_prefix, List.infix_cons_iff]

------------------------------------------------------------
-- Substitution
------------------------------------------------------------

/-
  Replace each occurrence of a placeholder, found from left
  to right, by a value.  The search goes on after the
  occurrence, so neither the value nor its neighbours are
  searched again.
-/
def substitute
    (holder value : List Char) :
    List Char → List Char
| [] => []
| c :: cs =>
    if holder.isPrefixOf (c :: cs) then
      value ++
        substitute holder value (cs.drop (holder.length - 1))
    else
      c :: substitute holder value cs
termination_by cs => cs.length
decreasing_by
  · simp only [List.length_drop, List.length_cons]
    omega
  · simp

end LootFilter.Text
