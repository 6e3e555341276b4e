/-
  This file defines association lists that keep the order in
  which their keys were first added.  Writing to a key that
  is there replaces its value in place.

  Key definitions include:
    * `Assoc`
    * `Assoc.find?`
    * `Assoc.set`
    * `Assoc.keys`
-/

namespace LootFilter

/- Keys with their values, in order. -/
abbrev Assoc (κ α : Type) :=
  List (κ × α)

namespace Assoc

variable {κ α : Type} [DecidableEq κ]

/- The value of a key. -/
def find? (k : κ) : Assoc κ α → Option α
| [] => none
| (j, a) :: rest => if j = k then some a else find? k rest

/- Give a key a value, in place or at the end. -/
def set (k : κ) (a : α) : Assoc κ α → Assoc κ α
| [] => [(k, a)]
| (j, b) :: rest =>
    if j = k then (j, a) :: rest else (j, b) :: set k a rest

/- The keys in order. -/
def keys (m : Assoc κ α) : List κ :=
  m.map Prod.fst

/- The value of a key that was just given one. -/
@[simp]
theorem find?_set_self (k : κ) (a : α) (m : Assoc κ α) :
    find? k (set k a m) = some a := by
  induction m with
  | nil => simp [set, find?]
  | cons entry rest ih =>
      obtain ⟨j, b⟩ := entry
      unfold set
      split <;> simp_all [find?]

/- The other keys keep their values. -/
theorem find?_set_of_ne
    {j k : κ}
    (h : j ≠ k)
    (a : α)
    (m : Assoc κ α) :
    find? j (set k a m) = find? j m := by
  induction m with
  | nil => simp [set, find?, Ne.symm h]
  | cons entry rest ih =>
      obtain ⟨i, b⟩ := entry
      unfold set
      split
      · rename_i hKey
        subst hKey
        simp [find?, Ne.symm h]
      · simp [find?, ih]

/- A key that is there keeps its place, any other comes last. -/
theorem keys_set (k : κ) (a : α) (m : Assoc κ α) :
    keys (set k a m) =
      if k ∈ keys m then keys m else keys m ++ [k] := by
  induction m with
  | nil => simp [set, keys]
  | cons entry rest ih =>
      obtain ⟨j, b⟩ := entry
      unfold set
      split
      · rename_i hKey
        subst hKey
        simp [keys]
      · rename_i hKey
        simp only [keys, List.map_cons, List.mem_cons] at ih ⊢
        rw [ih]
        have hNe : ¬ k = j := fun h => hKey h.symm
        simp only [hNe, false_or]
        split <;> simp_all

/- Distinct keys stay distinct. -/
theorem nodup_keys_set
    {m : Assoc κ α}
    (hKeys : (keys m).Nodup)
    (k : κ)
    (a : α) :
    (keys (set k a m)).Nodup := by
  rw [keys_set]
  split
  · exact hKeys
  · rename_i hNew
    rw [List.nodup_append]
    refine ⟨hKeys, by simp, ?_⟩
    intro j hMem other hOther
    rw [List.mem_singleton.mp hOther]
    rintro rfl
    exact hNew hMem

/- A value is put after everything if its key is new. -/
theorem set_of_notMem
    {k : κ}
    {m : Assoc κ α}
    (hNew : k ∉ keys m)
    (a : α) :
    set k a m = m ++ [(k, a)] := by
  induction m with
  | nil => rfl
  | cons entry rest ih =>
      obtain ⟨j, b⟩ := entry
      simp only [keys, List.map_cons, List.mem_cons, not_or]
        at hNew
      rw [set, if_neg (Ne.symm hNew.1), ih hNew.2,
        List.cons_append]

/-
  The value is put where the key is first found, or after
  everything if the key is new.  Nothing else changes.
-/
theorem set_cases (k : κ) (a : α) (m : Assoc κ α) :
    (∃ front b back,
      m = front ++ (k, b) :: back ∧ k ∉ keys front ∧
        set k a m = front ++ (k, a) :: back) ∨
      (k ∉ keys m ∧ set k a m = m ++ [(k, a)]) := by
  induction m with
  | nil =>
      right
      simp [keys, set]
  | cons entry rest ih =>
      obtain ⟨j, b⟩ := entry
      by_cases hKey : j = k
      · left
        subst hKey
        exact ⟨[], b, rest, rfl, by simp [keys], by simp [set]⟩
      · have hNe : k ≠ j := Ne.symm hKey
        rcases ih with ⟨front, c, back, hRest, hNew, hSet⟩ |
            ⟨hNew, hSet⟩
        · left
          refine ⟨(j, b) :: front, c, back, ?_, ?_, ?_⟩
          · rw [hRest, List.cons_append]
          · simpa [keys, hNe] using hNew
          · rw [set, if_neg hKey, hSet, List.cons_append]
        · right
          refine ⟨?_, ?_⟩
          · simpa [keys, hNe] using hNew
          · rw [set, if_neg hKey, hSet, List.cons_append]

/- A key has no value exactly when it is no key. -/
theorem find?_eq_none_iff
    {k : κ}
    {m : Assoc κ α} :
    find? k m = none ↔ k ∉ keys m := by
  induction m with
  | nil => simp [find?, keys]
  | cons entry rest ih =>
      obtain ⟨j, b⟩ := entry
      simp only [find?, keys, List.map_cons, List.mem_cons,
        not_or]
      by_cases hKey : j = k
      · simp [hKey]
      · rw [if_neg hKey, ih]
        simp [keys, Ne.symm hKey]

/- A value that is found is stored under its key. -/
theorem mem_of_find?_eq_some
    {k : κ}
    {a : α}
    {m : Assoc κ α}
    (h : find? k m = some a) :
    (k, a) ∈ m := by
  induction m with
  | nil => cases h
  | cons entry rest ih =>
      obtain ⟨j, b⟩ := entry
      unfold find? at h
      split at h
      · rename_i hKey
        cases h
        simp [hKey]
      · exact List.mem_cons_of_mem _ (ih h)

/- Giving a key the value that it has changes nothing. -/
theorem set_of_find?
    {k : κ}
    {a : α}
    {m : Assoc κ α}
    (hFind : find? k m = some a) :
    set k a m = m := by
  induction m with
  | nil => cases hFind
  | cons entry rest ih =>
      obtain ⟨j, b⟩ := entry
      unfold find? at hFind
      unfold set
      split
      · rename_i hKey
        rw [if_pos hKey] at hFind
        cases hFind
        rfl
      · rename_i hKey
        rw [if_neg hKey] at hFind
        rw [ih hFind]

/- With distinct keys, what is stored is found. -/
theorem find?_eq_some_iff
    {k : κ}
    {a : α}
    {m : Assoc κ α}
    (hNodup : (keys m).Nodup) :
    find? k m = some a ↔ (k, a) ∈ m := by
  constructor
  · exact mem_of_find?_eq_some
  · intro hMem
    induction m with
    | nil => cases hMem
    | cons entry rest ih =>
        obtain ⟨j, b⟩ := entry
        simp only [keys, List.map_cons, List.nodup_cons]
          at hNodup
        rcases List.mem_cons.mp hMem with hHead | hTail
        · cases hHead
          simp [find?]
        · have hKey : j ≠ k := by
            rintro rfl
            exact hNodup.1 (List.mem_map_of_mem hTail)
          rw [find?, if_neg hKey]
          exact ih hNodup.2 hTail

/- Giving a key a value stores nothing else. -/
theorem eq_or_mem_of_mem_set
    {k : κ}
    {a : α}
    {m : Assoc κ α}
    {entry : κ × α}
    (h : entry ∈ set k a m) :
    entry = (k, a) ∨ entry ∈ m := by
  induction m with
  | nil =>
      left
      simpa [set] using h
  | cons other rest ih =>
      obtain ⟨j, b⟩ := other
      unfold set at h
      split at h
      · rename_i hKey
        subst hKey
        rcases List.mem_cons.mp h with hHead | hTail
        · exact Or.inl hHead
        · exact Or.inr (List.mem_cons_of_mem _ hTail)
      · rcases List.mem_cons.mp h with hHead | hTail
        · exact Or.inr (hHead ▸ List.mem_cons_self)
        · rcases ih hTail with hNew | hOld
          · exact Or.inl hNew
          · exact Or.inr (List.mem_cons_of_mem _ hOld)

end Assoc

end LootFilter
