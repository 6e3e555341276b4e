import LootFilter.Writer

/-
  What renames make of the rows of a string table.

  A rename changes the first row with its key and keeps every
  key, so the place of the first row with another key does not
  move.  Renames of different keys therefore change different
  rows, each of them once.

  Main declarations:
    * `rowKeys`
    * `FirstAt`
    * `renameFirst`
    * `getElem?_renameFirst`
    * `renameAll`
    * `getElem?_renameAll_of_mem`
-/

namespace LootFilter

open Json (Value)

variable {rows : List Value} {rule : Rule} {base : String}

------------------------------------------------------------
-- Keys
------------------------------------------------------------

/- The keys of rows, as far as they have a text for one. -/
def rowKeys (rows : List Value) : List (Option String) :=
  rows.map (·.memberText? "Key")

/- Whether a row is the first one with some key. -/
def FirstAt
    (keys : List (Option String))
    (i : Nat)
    (key : String) : Prop :=
  keys[i]? = some (some key) ∧
    ∀ j < i, keys[j]? ≠ some (some key)

instance
    (keys : List (Option String))
    (i : Nat)
    (key : String) :
    Decidable (FirstAt keys i key) := by
  unfold FirstAt
  infer_instance

/- The first row is the first one with its key. -/
@[simp] theorem firstAt_cons_zero
    {key : Option String}
    {keys : List (Option String)}
    {wanted : String} :
    FirstAt (key :: keys) 0 wanted ↔ key = some wanted := by
  simp [FirstAt]

/- A later row is, if the first row has another key. -/
@[simp] theorem firstAt_cons_succ
    {key : Option String}
    {keys : List (Option String)}
    {i : Nat}
    {wanted : String} :
    FirstAt (key :: keys) (i + 1) wanted ↔
      key ≠ some wanted ∧ FirstAt keys i wanted := by
  unfold FirstAt
  rw [Nat.forall_lt_succ_left]
  simp only [List.getElem?_cons_succ, List.getElem?_cons_zero,
    ne_eq, Option.some.injEq]
  exact and_left_comm

/- A row is the first one with no more than one key. -/
theorem FirstAt.unique
    {keys : List (Option String)}
    {i : Nat}
    {a b : String}
    (hA : FirstAt keys i a)
    (hB : FirstAt keys i b) :
    a = b := by
  have hSame := hA.1.symm.trans hB.1
  simpa using hSame

------------------------------------------------------------
-- One Row
------------------------------------------------------------

/- A row that has a key is an object. -/
theorem exists_members_of_memberText?
    {row : Value}
    {name text : String}
    (hText : row.memberText? name = some text) :
    ∃ members, row = .object members := by
  cases row with
  | object members => exact ⟨members, rfl⟩
  | _ => cases hText

/- Giving a member a value leaves the others alone. -/
theorem memberText?_setMember_of_ne
    {name other : String}
    (hNe : other ≠ name)
    (row a : Value) :
    (row.setMember name a).memberText? other =
      row.memberText? other := by
  cases row with
  | object members =>
      simp only [Value.setMember, Value.memberText?,
        Value.member?, Value.members?, bind, Option.bind,
        Assoc.find?_set_of_ne hNe]
  | _ => rfl

/- A rename keeps the key of a row. -/
@[simp] theorem memberText?_key_renameRow
    (rule : Rule)
    (row : Value) :
    (rule.renameRow row).memberText? "Key" =
      row.memberText? "Key" := by
  unfold Rule.renameRow
  dsimp only
  split
  · rfl
  · exact memberText?_setMember_of_ne (by decide) row _

/- What a rename makes of an object. -/
theorem renameRow_object
    (hChanges : rule.changesNames = true)
    (members : List (String × Value)) :
    ∃ name,
      rule.displayName
          (((Value.object members).memberText? "enUS").getD
            "") = some name ∧
        rule.renameRow (.object members) =
          .object (Assoc.set "enUS" (.text name) members) := by
  rw [← rule.isSome_displayName
      (((Value.object members).memberText? "enUS").getD ""),
    Option.isSome_iff_exists] at hChanges
  rcases hChanges with ⟨name, hName⟩
  refine ⟨name, hName, ?_⟩
  simp only [Rule.renameRow, hName, Value.setMember]

------------------------------------------------------------
-- One Rename
------------------------------------------------------------

/- The rows after a rename of a base type. -/
def renameFirst
    (rows : List Value)
    (rename : String × Rule) : List Value :=
  (Writer.renamedRows rename.2 rename.1 rows).1

/- Without rows, nothing is renamed. -/
theorem renameFirst_nil
    (base : String)
    (rule : Rule) :
    renameFirst [] (base, rule) = [] := rfl

/- A rename goes to the first row or to a later one. -/
theorem renameFirst_cons
    (base : String)
    (rule : Rule)
    (row : Value)
    (rows : List Value) :
    renameFirst (row :: rows) (base, rule) =
      if row.memberText? "Key" = some base then
        rule.renameRow row :: rows
      else
        row :: renameFirst rows (base, rule) := by
  unfold renameFirst Writer.renamedRows
  dsimp only
  rw [Rule.renameIn]
  by_cases hKey : row.memberText? "Key" = some base
  · simp only [hKey, if_true]
  · simp only [hKey, if_false]
    cases rule.renameIn base rows <;> rfl

/- A rename keeps the keys of the rows. -/
theorem rowKeys_renameFirst
    (base : String)
    (rule : Rule)
    (rows : List Value) :
    rowKeys (renameFirst rows (base, rule)) = rowKeys rows := by
  induction rows with
  | nil => rfl
  | cons row rows ih =>
      rw [renameFirst_cons]
      unfold rowKeys at ih ⊢
      split
      · simp
      · simp [ih]

/- A rename changes the first row with the key alone. -/
theorem getElem?_renameFirst
    (base : String)
    (rule : Rule)
    (rows : List Value)
    (i : Nat) :
    (renameFirst rows (base, rule))[i]? =
      if FirstAt (rowKeys rows) i base then
        rows[i]?.map rule.renameRow
      else
        rows[i]? := by
  induction rows generalizing i with
  | nil => simp [renameFirst_nil]
  | cons row rows ih =>
      rw [renameFirst_cons]
      have hKeys :
          rowKeys (row :: rows) =
            row.memberText? "Key" :: rowKeys rows := rfl
      rw [hKeys]
      by_cases hKey : row.memberText? "Key" = some base
      · rw [if_pos hKey]
        cases i with
        | zero => simp [hKey]
        | succ i => simp [hKey]
      · rw [if_neg hKey]
        cases i with
        | zero => simp [hKey]
        | succ i => simp [hKey, ih]

------------------------------------------------------------
-- Many Renames
------------------------------------------------------------

/- The rows after renames of base types, in order. -/
def renameAll
    (renames : List (String × Rule))
    (rows : List Value) : List Value :=
  renames.foldl renameFirst rows

/- Renames keep the keys of the rows. -/
theorem rowKeys_renameAll
    (renames : List (String × Rule))
    (rows : List Value) :
    rowKeys (renameAll renames rows) = rowKeys rows := by
  induction renames generalizing rows with
  | nil => rfl
  | cons rename renames ih =>
      exact
        (ih (renameFirst rows rename)).trans
          (rowKeys_renameFirst rename.1 rename.2 rows)

/- Renames keep the number of rows. -/
theorem length_renameAll
    (renames : List (String × Rule))
    (rows : List Value) :
    (renameAll renames rows).length = rows.length := by
  have hKeys :=
    congrArg List.length (rowKeys_renameAll renames rows)
  simpa [rowKeys] using hKeys

/- A row that is the first one with no renamed key stays. -/
theorem getElem?_renameAll_of_forall
    {renames : List (String × Rule)}
    {i : Nat}
    (hNone :
      ∀ rename ∈ renames, ¬ FirstAt (rowKeys rows) i rename.1) :
    (renameAll renames rows)[i]? = rows[i]? := by
  induction renames generalizing rows with
  | nil => rfl
  | cons rename renames ih =>
      obtain ⟨base, rule⟩ := rename
      have hHead := hNone (base, rule) List.mem_cons_self
      have hRest :
          ∀ other ∈ renames,
            ¬ FirstAt
              (rowKeys (renameFirst rows (base, rule))) i
              other.1 := by
        rw [rowKeys_renameFirst]
        intro other hMem
        exact hNone other (List.mem_cons_of_mem _ hMem)
      rw [renameAll, List.foldl_cons]
      refine (ih hRest).trans ?_
      rw [getElem?_renameFirst, if_neg hHead]

/-
  If no base type is renamed twice, the first row with a
  renamed key is renamed once.
-/
theorem getElem?_renameAll_of_mem
    {renames : List (String × Rule)}
    (hDistinct : (renames.map Prod.fst).Nodup)
    (hMem : (base, rule) ∈ renames)
    {i : Nat}
    (hFirst : FirstAt (rowKeys rows) i base) :
    (renameAll renames rows)[i]? =
      rows[i]?.map rule.renameRow := by
  induction renames generalizing rows with
  | nil => cases hMem
  | cons rename renames ih =>
      obtain ⟨head, first⟩ := rename
      rw [List.map_cons, List.nodup_cons] at hDistinct
      have hKeys := rowKeys_renameFirst head first rows
      have hHere := getElem?_renameFirst head first rows i
      rw [renameAll, List.foldl_cons]
      rcases List.mem_cons.mp hMem with hEq | hTail
      · cases hEq
        rw [if_pos hFirst] at hHere
        rw [← hHere]
        apply getElem?_renameAll_of_forall
        rw [hKeys]
        intro other hOther hAgain
        have hKey : other.1 ∈ renames.map Prod.fst :=
          List.mem_map_of_mem hOther
        rw [← hFirst.unique hAgain] at hKey
        exact hDistinct.1 hKey
      · have hKey : base ∈ renames.map Prod.fst :=
          List.mem_map_of_mem hTail
        have hNe : head ≠ base := by
          rintro rfl
          exact hDistinct.1 hKey
        rw [if_neg (fun hHead => hNe (hHead.unique hFirst))]
          at hHere
        rw [← hHere]
        exact ih hDistinct.2 hTail (hKeys ▸ hFirst)

end LootFilter
