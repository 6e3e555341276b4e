import LootFilter.Text.Lines

/-
  Texts that are split at a separator.

  Where a field ends and the next one starts is told by the
  separators alone.  So fields without a separator that are
  joined by it are the fields of the text.

  Main declarations:
    * `Text.splitAt_append`
    * `Text.splitAt_joinWith`
    * `Text.not_mem_of_mem_splitAt`
-/

namespace LootFilter.Text

/- What follows a text without a separator joins its end. -/
theorem splitAt_append
    {sep : Char}
    (cs tail : List Char)
    (hTail : sep ∉ tail) :
    ∃ fields last,
      splitAt sep cs = fields ++ [last] ∧
        splitAt sep (cs ++ tail) =
          fields ++ [last ++ tail] := by
  induction cs with
  | nil =>
      refine ⟨[], [], rfl, ?_⟩
      induction tail with
      | nil => rfl
      | cons c tail ih =>
          simp only [List.mem_cons, not_or] at hTail
          have hRest := ih hTail.2
          simp only [List.nil_append] at hRest ⊢
          simp [splitAt, Ne.symm hTail.1, hRest]
  | cons c cs ih =>
      rcases ih with ⟨fields, last, hLeft, hRight⟩
      by_cases hSep : c = sep
      · refine ⟨[] :: fields, last, ?_, ?_⟩
        · simp [splitAt, hSep, hLeft]
        · simp [splitAt, hSep, hRight]
      · cases fields with
        | nil =>
            refine ⟨[], c :: last, ?_, ?_⟩
            · simp [splitAt, hSep, hLeft]
            · simp [splitAt, hSep, hRight]
        | cons field fields =>
            refine ⟨(c :: field) :: fields, last, ?_, ?_⟩
            · simp [splitAt, hSep, hLeft]
            · simp [splitAt, hSep, hRight]

/- A text without a separator ends at the next one. -/
theorem splitAt_append_sep
    {sep : Char}
    {field : List Char}
    (hField : sep ∉ field)
    (rest : List Char) :
    splitAt sep (field ++ sep :: rest) =
      field :: splitAt sep rest := by
  induction field with
  | nil => simp [splitAt]
  | cons c field ih =>
      simp only [List.mem_cons, not_or] at hField
      simp [splitAt, Ne.symm hField.1, ih hField.2]

/- Between separators there is nothing. -/
theorem splitAt_replicate_append
    (sep : Char)
    (count : Nat)
    (rest : List Char) :
    splitAt sep (List.replicate count sep ++ rest) =
      List.replicate count [] ++ splitAt sep rest := by
  induction count with
  | zero => rfl
  | succ count ih =>
      simp [List.replicate_succ, splitAt, ih]

/- Joining fields and splitting the text gives the fields. -/
theorem splitAt_joinWith
    {sep : Char}
    {fields : List (List Char)}
    (hSome : fields ≠ [])
    (hFields : ∀ field ∈ fields, sep ∉ field) :
    splitAt sep (joinWith [sep] fields) = fields := by
  induction fields with
  | nil => exact absurd rfl hSome
  | cons field fields ih =>
      have hField := hFields field List.mem_cons_self
      cases fields with
      | nil =>
          rcases splitAt_append [] field hField with
            ⟨front, last, hNone, hSplit⟩
          cases front with
          | nil =>
              cases hNone
              exact hSplit
          | cons first front => simp [splitAt] at hNone
      | cons next more =>
          have hRest :=
            ih (List.cons_ne_nil _ _) fun other hMem =>
              hFields other (List.mem_cons_of_mem _ hMem)
          rw [joinWith, List.append_assoc,
            List.singleton_append,
            splitAt_append_sep hField, hRest]
          exact List.cons_ne_nil _ _

/- No field has a separator in it. -/
theorem not_mem_of_mem_splitAt
    {sep : Char}
    {cs field : List Char}
    (hField : field ∈ splitAt sep cs) :
    sep ∉ field := by
  induction cs generalizing field with
  | nil =>
      rw [splitAt, List.mem_singleton] at hField
      simp [hField]
  | cons c cs ih =>
      unfold splitAt at hField
      split at hField
      · rcases List.mem_cons.mp hField with rfl | hRest
        · exact List.not_mem_nil
        · exact ih hRest
      · rename_i hSep
        cases hSplit : splitAt sep cs with
        | nil => exact absurd hSplit (splitAt_ne_nil sep cs)
        | cons first fields =>
            rw [hSplit] at hField ih
            rcases List.mem_cons.mp hField with rfl | hRest
            · rw [List.mem_cons, not_or]
              exact ⟨Ne.symm hSep, ih List.mem_cons_self⟩
            · exact ih (List.mem_cons_of_mem _ hRest)

end LootFilter.Text
