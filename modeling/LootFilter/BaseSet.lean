/-
  This file defines sets of base types that remember the
  order in which their members were first added.

  Key definitions include:
    * `BaseSet`
    * `BaseSet.insert`
    * `BaseSet.extend`
    * `BaseSet.ofList`
    * `BaseSet.restrict`
-/

namespace LootFilter

/- Distinct base types in a fixed order. -/
structure BaseSet where
  toList : List String
  nodup : toList.Nodup
deriving DecidableEq, Repr

namespace BaseSet

------------------------------------------------------------
-- Operations
------------------------------------------------------------

/- The set without members. -/
def empty : BaseSet :=
  ⟨[], List.nodup_nil⟩

instance : EmptyCollection BaseSet := ⟨empty⟩

instance : Inhabited BaseSet := ⟨empty⟩

instance : Membership String BaseSet :=
  ⟨fun s b => b ∈ s.toList⟩

instance (b : String) (s : BaseSet) : Decidable (b ∈ s) :=
  inferInstanceAs (Decidable (b ∈ s.toList))

/- The number of members. -/
def size (s : BaseSet) : Nat :=
  s.toList.length

/- Add a member at the end, unless it is there already. -/
def insert
    (s : BaseSet)
    (b : String) : BaseSet :=
  if h : b ∈ s.toList then
    s
  else
    ⟨s.toList ++ [b], by
      rw [List.nodup_append]
      refine ⟨s.nodup, by simp, ?_⟩
      intro a ha c hc hac
      simp only [List.mem_singleton] at hc
      exact h (hc ▸ hac ▸ ha)⟩

/- Add several members, one after the other. -/
def extend
    (s : BaseSet)
    (bases : List String) : BaseSet :=
  bases.foldl insert s

/- The members of a list, each at its first position. -/
def ofList (bases : List String) : BaseSet :=
  empty.extend bases

/- Keep the members that also belong to another set. -/
def restrict (s t : BaseSet) : BaseSet :=
  ⟨s.toList.filter (· ∈ t), s.nodup.filter _⟩

------------------------------------------------------------
-- Membership
------------------------------------------------------------

/- Membership is membership in the list of members. -/
theorem mem_def {b : String} {s : BaseSet} :
    b ∈ s ↔ b ∈ s.toList :=
  Iff.rfl

/- Nothing belongs to the empty set. -/
@[simp]
theorem not_mem_empty (b : String) : b ∉ empty := by
  simp [mem_def, empty]

/- Adding a member adds just that member. -/
@[simp]
theorem mem_insert {a b : String} {s : BaseSet} :
    a ∈ s.insert b ↔ a ∈ s ∨ a = b := by
  unfold insert
  split
  · rename_i h
    constructor
    · exact Or.inl
    · rintro (hMem | rfl)
      · exact hMem
      · exact h
  · simp [mem_def]

/- Adding several members adds just those members. -/
@[simp]
theorem mem_extend {a : String} {bases : List String} :
    ∀ {s : BaseSet}, a ∈ s.extend bases ↔ a ∈ s ∨ a ∈ bases := by
  unfold extend
  induction bases with
  | nil => simp
  | cons b bases ih =>
      intro s
      simp only [List.foldl_cons]
      rw [ih]
      simp [or_assoc]

/- Restriction keeps the common members. -/
@[simp]
theorem mem_restrict {b : String} {s t : BaseSet} :
    b ∈ s.restrict t ↔ b ∈ s ∧ b ∈ t := by
  simp [mem_def, restrict]

end BaseSet

end LootFilter
