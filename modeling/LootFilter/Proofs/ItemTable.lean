import LootFilter.ItemTable
import LootFilter.Proofs.DataFile
import LootFilter.Proofs.Fields

/-
  The grammar of tables of items.

  A table is written as rows of fields, with a tab between two
  fields and a line feed, a carriage return or both behind a
  row; lines without anything may stand in between.  Bytes are
  a table exactly if they are cut into rows of UTF-8 where
  they are written so.  None of the bytes that separate is
  part of the encoding of another character, so the cut can
  be made in the bytes as in the text.

  Main declarations:
    * `Text.mem_toUTF8_iff`
    * `ItemTable.Written`
    * `ItemTable.written_iff`
    * `ItemTable.Stands`, `ItemTable.Stands.unique`
    * `ItemTable.read_eq_ok_iff`
-/

namespace LootFilter

------------------------------------------------------------
-- Bytes of Texts
------------------------------------------------------------

namespace Text

variable {a c : Char} {s : String}

/-
  The byte of a character below 128 is in the encoding of no
  other character.
-/
theorem mem_utf8EncodeChar_iff
    (hAscii : a.val.toNat < 128) :
    UInt8.ofNat a.val.toNat ∈ String.utf8EncodeChar c ↔
      c = a := by
  have hSame : c = a ↔ c.val.toNat = a.val.toNat := by
    rw [UInt32.toNat_inj, Char.ext_iff]
  have hByte : ∀ n,
      UInt8.ofNat a.val.toNat = UInt8.ofNat n ↔
        a.val.toNat = n % 256 := by
    intro n
    rw [← UInt8.toNat_inj, UInt8.toNat_ofNat',
      UInt8.toNat_ofNat']
    omega
  unfold String.utf8EncodeChar
  dsimp only
  split_ifs <;>
    simp only [List.mem_cons, List.not_mem_nil, or_false,
      hByte, hSame] <;>
    omega

/- The bytes of a text are those of its characters. -/
theorem toList_toUTF8 (s : String) :
    s.toUTF8.data.toList =
      s.toList.flatMap String.utf8EncodeChar := by
  rw [String.toUTF8, ← String.utf8Encode_toList,
    List.utf8Encode, List.toList_data_toByteArray]

/- Such a byte is in a text where the character is. -/
theorem mem_toUTF8_iff
    (hAscii : a.val.toNat < 128) :
    UInt8.ofNat a.val.toNat ∈ s.toUTF8.data.toList ↔
      a ∈ s.toList := by
  rw [toList_toUTF8, List.mem_flatMap]
  simp only [mem_utf8EncodeChar_iff hAscii, exists_eq_right]

end Text

namespace ItemTable

------------------------------------------------------------
-- Rows
------------------------------------------------------------

/- The text of a row: its fields, and tabs between them. -/
def rowText (row : List String) : String :=
  "\t".intercalate row

/- The bytes of a row. -/
def rowBytes (row : List String) : List UInt8 :=
  (rowText row).toUTF8.data.toList

/- Whether a field can be told from what is around it. -/
def IsField (field : String) : Prop :=
  '\t' ∉ field.toList ∧
    '\n' ∉ field.toList ∧ '\r' ∉ field.toList

/-
  Whether fields are a row.  A row of one empty field would
  not show.
-/
structure IsRow (row : List String) : Prop where
  any : row ≠ []
  shows : row ≠ [""]
  fields : ∀ field ∈ row, IsField field

variable {row : List String} {bytes rest : List UInt8}
variable {b : UInt8}

/- The text of a row is joined from its fields. -/
theorem toList_rowText (row : List String) :
    (rowText row).toList =
      Text.joinWith ['\t'] (row.map String.toList) := by
  unfold rowText
  induction row with
  | nil => rfl
  | cons field row ih =>
      cases row with
      | nil => simp [Text.joinWith]
      | cons next row =>
          rw [String.intercalate_cons_cons,
            String.toList_append, ih]
          simp [Text.joinWith]

/- A character of the text that is no tab is in a field. -/
theorem mem_rowText_iff
    {a : Char}
    (hTab : a ≠ '\t') :
    a ∈ (rowText row).toList ↔
      ∃ field ∈ row, a ∈ field.toList := by
  rw [toList_rowText]
  induction row with
  | nil => simp [Text.joinWith]
  | cons field row ih =>
      cases row with
      | nil => simp [Text.joinWith]
      | cons next row =>
          simp only [List.map_cons, Text.joinWith] at ih ⊢
          simp [ih, hTab]

/- Fields are read from the bytes of a row and nothing else. -/
theorem fields?_eq_some_iff :
    fields? bytes = some row ↔
      bytes = rowBytes row ∧ row ≠ [] ∧
        ∀ field ∈ row, '\t' ∉ field.toList := by
  unfold fields?
  rw [Option.map_eq_some_iff]
  simp only [DataFile.fromUTF8?_eq_some_iff]
  constructor
  · rintro ⟨s, hBytes, rfl⟩
    have hText :
        rowText ((Text.splitAt '\t' s.toList).map String.ofList) =
          s := by
      rw [← String.toList_inj, toList_rowText, List.map_map]
      simp [Function.comp_def, Text.joinWith_splitAt]
    refine ⟨?_, ?_, ?_⟩
    · rw [rowBytes, hText, ← hBytes]
    · simpa using Text.splitAt_ne_nil '\t' s.toList
    · intro field hField
      rcases List.mem_map.mp hField with ⟨cs, hMem, rfl⟩
      rw [String.toList_ofList]
      exact Text.not_mem_of_mem_splitAt hMem
  · rintro ⟨rfl, hSome, hTabs⟩
    refine ⟨rowText row, ?_, ?_⟩
    · simp [rowBytes]
    · have hFields :
          ∀ field ∈ row.map String.toList, '\t' ∉ field := by
        simpa using hTabs
      rw [toList_rowText,
        Text.splitAt_joinWith (by simpa using hSome) hFields,
        List.map_map]
      simp [Function.comp_def]

/- The fields of a row are read from its bytes. -/
theorem IsRow.fields?_rowBytes
    (hRow : IsRow row) :
    fields? (rowBytes row) = some row :=
  fields?_eq_some_iff.mpr
    ⟨rfl, hRow.any,
      fun field hMem => (hRow.fields field hMem).1⟩

/- A row shows: it has bytes. -/
theorem IsRow.rowBytes_ne_nil
    (hRow : IsRow row) :
    rowBytes row ≠ [] := by
  intro hNone
  have hEmpty : fields? (rowBytes row) = some [""] :=
    fields?_eq_some_iff.mpr
      ⟨by rw [hNone]; rfl, by simp, by simp⟩
  rw [hRow.fields?_rowBytes] at hEmpty
  exact hRow.shows (Option.some.inj hEmpty)

/- The bytes that end rows are those of line ends. -/
theorem endsRow_eq_true_iff :
    endsRow b = true ↔
      b = UInt8.ofNat '\n'.val.toNat ∨
        b = UInt8.ofNat '\r'.val.toNat := by
  rw [endsRow, Bool.or_eq_true, beq_iff_eq, beq_iff_eq]
  rfl

/- They are in the bytes of a row if its fields have any. -/
theorem exists_endsRow_iff :
    (∃ b ∈ rowBytes row, endsRow b = true) ↔
      ∃ field ∈ row,
        '\n' ∈ field.toList ∨ '\r' ∈ field.toList := by
  have hFeed :
      UInt8.ofNat '\n'.val.toNat ∈ rowBytes row ↔
        ∃ field ∈ row, '\n' ∈ field.toList := by
    rw [← mem_rowText_iff (by decide)]
    exact Text.mem_toUTF8_iff (by decide)
  have hReturn :
      UInt8.ofNat '\r'.val.toNat ∈ rowBytes row ↔
        ∃ field ∈ row, '\r' ∈ field.toList := by
    rw [← mem_rowText_iff (by decide)]
    exact Text.mem_toUTF8_iff (by decide)
  simp only [endsRow_eq_true_iff, and_or_left, exists_or,
    exists_eq_right, hFeed, hReturn]

/- No byte of a row ends one. -/
theorem IsRow.endsRow_eq_false
    (hRow : IsRow row) :
    ∀ b ∈ rowBytes row, endsRow b = false := by
  intro b hMem
  by_contra hEnds
  rw [Bool.not_eq_false] at hEnds
  rcases exists_endsRow_iff.mp ⟨b, hMem, hEnds⟩ with
    ⟨field, hField, hChar⟩
  rcases hRow.fields field hField with ⟨_, hFeed, hReturn⟩
  exact hChar.elim hFeed hReturn

/- Bytes with fields that end no row are those of a row. -/
theorem isRow_of_fields?
    (hFields : fields? bytes = some row)
    (hSome : bytes ≠ [])
    (hFree : ∀ b ∈ bytes, endsRow b = false) :
    bytes = rowBytes row ∧ IsRow row := by
  rcases fields?_eq_some_iff.mp hFields with
    ⟨rfl, hAny, hTabs⟩
  have hPlain :
      ¬ ∃ field ∈ row,
        '\n' ∈ field.toList ∨ '\r' ∈ field.toList := by
    rw [← exists_endsRow_iff]
    rintro ⟨b, hMem, hEnds⟩
    rw [hFree b hMem] at hEnds
    cases hEnds
  refine ⟨rfl, hAny, ?_, ?_⟩
  · rintro rfl
    exact hSome rfl
  · intro field hField
    refine ⟨hTabs field hField, ?_, ?_⟩
    · exact fun hChar => hPlain ⟨field, hField, Or.inl hChar⟩
    · exact fun hChar => hPlain ⟨field, hField, Or.inr hChar⟩

------------------------------------------------------------
-- Ends of Rows
------------------------------------------------------------

/- Whether bytes end a row: a line feed, a return or both. -/
def IsRowEnd (ending : List UInt8) : Prop :=
  ending = [10] ∨ ending = [13] ∨ ending = [13, 10]

/- Bytes that end no row are a single piece. -/
theorem pieces_eq_singleton
    (hFree : ∀ b ∈ bytes, endsRow b = false) :
    pieces bytes = [bytes] := by
  induction bytes with
  | nil => rfl
  | cons b bytes ih =>
      rw [List.forall_mem_cons] at hFree
      simp [pieces, hFree.1, ih hFree.2]

/- A byte that ends a row ends the piece in front of it. -/
theorem pieces_append_cons
    (hFree : ∀ b ∈ bytes, endsRow b = false)
    (hEnd : endsRow b = true)
    (rest : List UInt8) :
    pieces (bytes ++ b :: rest) = bytes :: pieces rest := by
  induction bytes with
  | nil => simp [pieces, hEnd]
  | cons c bytes ih =>
      rw [List.forall_mem_cons] at hFree
      simp [pieces, hFree.1, ih hFree.2]

/- The pieces that are not empty. -/
def filled (bytes : List UInt8) : List (List UInt8) :=
  (pieces bytes).filter (· ≠ [])

/- An end of a row in front of a table does not count. -/
theorem filled_append_end
    {ending : List UInt8}
    (hEnd : IsRowEnd ending)
    (rest : List UInt8) :
    filled (ending ++ rest) = filled rest := by
  rcases hEnd with rfl | rfl | rfl <;>
    simp [filled, pieces, endsRow]

/- Behind a row it ends the row. -/
theorem filled_append
    {ending : List UInt8}
    (hFree : ∀ b ∈ bytes, endsRow b = false)
    (hSome : bytes ≠ [])
    (hEnd : IsRowEnd ending)
    (rest : List UInt8) :
    filled (bytes ++ (ending ++ rest)) =
      bytes :: filled rest := by
  rcases hEnd with rfl | rfl | rfl <;>
    simp [filled, pieces_append_cons hFree, pieces, endsRow, hSome]

------------------------------------------------------------
-- Tables
------------------------------------------------------------

/- How rows are written: each one ended, but for the last. -/
inductive Written :
    List UInt8 → List (List String) → Prop where
| nothing : Written [] []
| last
    {row : List String}
    (hRow : IsRow row) :
    Written (rowBytes row) [row]
| blank
    {ending rest : List UInt8}
    {table : List (List String)}
    (hEnd : IsRowEnd ending)
    (hRest : Written rest table) :
    Written (ending ++ rest) table
| row
    {row : List String}
    {ending rest : List UInt8}
    {table : List (List String)}
    (hRow : IsRow row)
    (hEnd : IsRowEnd ending)
    (hRest : Written rest table) :
    Written (rowBytes row ++ (ending ++ rest)) (row :: table)

variable {table : List (List String)}

/- What is written is read. -/
theorem Written.map_fields?
    (hWritten : Written bytes table) :
    (filled bytes).map fields? = table.map some := by
  induction hWritten with
  | nothing => rfl
  | last hRow =>
      simp [filled, pieces_eq_singleton hRow.endsRow_eq_false,
        hRow.rowBytes_ne_nil, hRow.fields?_rowBytes]
  | blank hEnd _ ih => rw [filled_append_end hEnd, ih]
  | row hRow hEnd _ ih =>
      rw [filled_append hRow.endsRow_eq_false
        hRow.rowBytes_ne_nil hEnd, List.map_cons, ih,
        hRow.fields?_rowBytes, List.map_cons]

/-
  What is read is written, also behind bytes that end no row.
  The induction moves a byte of the table to these bytes, up
  to the first one that ends a row.
-/
theorem written_append
    {front : List UInt8}
    (hFree : ∀ b ∈ front, endsRow b = false)
    (hRead :
      (filled (front ++ bytes)).map fields? =
        table.map some) :
    Written (front ++ bytes) table := by
  induction bytes generalizing front table with
  | nil =>
      rw [List.append_nil] at hRead ⊢
      rw [filled, pieces_eq_singleton hFree] at hRead
      by_cases hNone : front = []
      · subst hNone
        cases table with
        | nil => exact .nothing
        | cons row table => simp at hRead
      · simp only [hNone, ne_eq, not_false_eq_true,
          decide_true, List.filter_cons_of_pos,
          List.filter_nil, List.map_cons, List.map_nil]
          at hRead
        rcases List.map_eq_singleton_iff.mp hRead.symm with
          ⟨row, rfl, hFields⟩
        rcases isRow_of_fields? hFields.symm hNone hFree with
          ⟨rfl, hRow⟩
        exact .last hRow
  | cons b bytes ih =>
      by_cases hEnds : endsRow b = true
      · have hEnd : IsRowEnd [b] := by
          rcases endsRow_eq_true_iff.mp hEnds with rfl | rfl
          · exact Or.inl rfl
          · exact Or.inr (Or.inl rfl)
        have hRest : ∀ {table : List (List String)},
            (filled bytes).map fields? = table.map some →
              Written bytes table :=
          fun hRead => ih (List.forall_mem_nil _) hRead
        rw [← List.singleton_append] at hRead ⊢
        by_cases hNone : front = []
        · subst hNone
          rw [List.nil_append] at hRead ⊢
          rw [filled_append_end hEnd] at hRead
          exact .blank hEnd (hRest hRead)
        · rw [filled_append hFree hNone hEnd, List.map_cons]
            at hRead
          cases table with
          | nil => cases hRead
          | cons row table =>
              rw [List.map_cons, List.cons.injEq] at hRead
              rcases isRow_of_fields? hRead.1 hNone hFree with
                ⟨rfl, hRow⟩
              exact .row hRow hEnd (hRest hRead.2)
      · have hMore :
            front ++ b :: bytes = (front ++ [b]) ++ bytes := by
          simp
        rw [hMore] at hRead ⊢
        apply ih _ hRead
        rw [List.forall_mem_append, List.forall_mem_singleton]
        exact ⟨hFree, Bool.eq_false_iff.mpr hEnds⟩

/- Bytes are a table if each of their rows has fields. -/
theorem written_iff :
    Written bytes table ↔
      (filled bytes).map fields? = table.map some :=
  ⟨Written.map_fields?,
    fun hRead => written_append (List.forall_mem_nil _) hRead⟩

------------------------------------------------------------
-- Files
------------------------------------------------------------

/-
  Whether bytes hold a table: a table is written there, maybe
  with a byte order mark in front.
-/
def Stands
    (bytes : List UInt8)
    (table : List (List String)) : Prop :=
  ∃ body,
    Written body table ∧
      (bytes = markBytes ++ body ∨
        (bytes = body ∧ ¬ markBytes <+: body))

/- Then the rows of the table are read. -/
theorem stands_iff :
    Stands bytes table ↔
      (rows bytes).map fields? = table.map some := by
  have hRows : rows bytes = filled (dropMarkBytes bytes) := rfl
  rw [hRows, ← written_iff]
  unfold Stands dropMarkBytes
  constructor
  · rintro ⟨body, hWritten, rfl | ⟨rfl, hNone⟩⟩
    · simpa using hWritten
    · simpa [hNone] using hWritten
  · intro hWritten
    split at hWritten
    · rename_i hMark
      rcases List.isPrefixOf_iff_prefix.mp hMark with
        ⟨body, rfl⟩
      rw [List.drop_left] at hWritten
      exact ⟨body, hWritten, Or.inl rfl⟩
    · rename_i hNone
      rw [List.isPrefixOf_iff_prefix] at hNone
      exact ⟨bytes, hWritten, Or.inr ⟨rfl, hNone⟩⟩

/- Bytes hold one table only. -/
theorem Stands.unique
    {other : List (List String)}
    (hStands : Stands bytes table)
    (hOther : Stands bytes other) :
    table = other := by
  have hSame :=
    (stands_iff.mp hStands).symm.trans (stands_iff.mp hOther)
  exact
    List.map_injective_iff.mpr (fun _ _ => Option.some.inj)
      hSame

------------------------------------------------------------
-- Items
------------------------------------------------------------

/-
  The field of a row under the first column with a name.  It
  is empty where the row is too short.
-/
def fieldUnder
    (header : List String)
    (name : String)
    (row : List String) : String :=
  (row[header.idxOf name]?).getD ""

/- The item of a row. -/
def itemUnder
    (header row : List String) : ItemRow :=
  ⟨fieldUnder header "name" row, fieldUnder header "code" row⟩

variable {header : List String} {items : List ItemRow}

/- A column is found at its first place. -/
theorem column_eq_ok_iff
    {name : String}
    {i : Nat} :
    column header name = .ok i ↔
      name ∈ header ∧ header.idxOf name = i := by
  unfold column
  cases hFind : header.findIdx? (· == name) with
  | none =>
      have hNone : name ∉ header := by
        intro hMem
        simpa using List.findIdx?_eq_none_iff.mp hFind name hMem
      simp [hNone]
  | some j =>
      rw [List.findIdx?_eq_some_iff_findIdx_eq] at hFind
      have hMem : name ∈ header := by
        rw [← List.idxOf_lt_length_iff, List.idxOf, hFind.2]
        exact hFind.1
      simp [hMem, List.idxOf, hFind.2]

/- The fields of the first row are those of the header. -/
theorem headerFields_cons_eq_ok_iff
    {raw : List UInt8}
    {raws : List (List UInt8)} :
    headerFields (raw :: raws) = .ok header ↔
      fields? raw = some header := by
  unfold headerFields
  dsimp only
  cases fields? raw <;> simp

/- An item is read from a row with fields. -/
theorem item_eq_ok_iff
    {name code : Nat}
    {raw : List UInt8}
    {found : ItemRow} :
    item name code raw = .ok found ↔
      ∃ row,
        fields? raw = some row ∧
          ⟨row[name]?.getD "", row[code]?.getD ""⟩ = found := by
  unfold item
  cases fields? raw <;> simp

/- Items are read from rows that all have fields. -/
theorem mapM_item_eq_ok_iff
    {name code : Nat}
    {raws : List (List UInt8)} :
    raws.mapM (item name code) = .ok items ↔
      ∃ table : List (List String),
        raws.map fields? = table.map some ∧
          items =
            table.map fun row =>
              ⟨row[name]?.getD "", row[code]?.getD ""⟩ := by
  induction raws generalizing items with
  | nil =>
      rw [List.mapM_nil]
      constructor
      · rintro ⟨⟩
        exact ⟨[], rfl, rfl⟩
      · rintro ⟨table, hTable, rfl⟩
        rw [List.map_eq_nil_iff.mp hTable.symm]
        rfl
  | cons raw raws ih =>
      rw [List.mapM_cons, bind_eq_ok_iff]
      simp only [bind_eq_ok_iff, ih, item_eq_ok_iff]
      constructor
      · rintro ⟨_, ⟨row, hRow, rfl⟩, _, ⟨table, hTable, rfl⟩,
          ⟨⟩⟩
        exact ⟨row :: table, by simp [hRow, hTable], rfl⟩
      · rintro ⟨_ | ⟨row, table⟩, hTable, rfl⟩
        · cases hTable
        · rw [List.map_cons, List.map_cons, List.cons.injEq]
            at hTable
          exact
            ⟨_, ⟨row, hTable.1, rfl⟩, _, ⟨table, hTable.2, rfl⟩,
              rfl⟩

/-
  Items are read from bytes exactly if these hold a table with
  both columns, and then they are the items of its rows.
-/
theorem read_eq_ok_iff :
    read bytes = .ok items ↔
      ∃ header table,
        Stands bytes (header :: table) ∧
          "name" ∈ header ∧ "code" ∈ header ∧
          items = table.map (itemUnder header) := by
  simp only [stands_iff]
  unfold read
  cases rows bytes with
  | nil =>
      -- Without a row there is no column.
      constructor
      · intro hRead
        cases hRead
      · rintro ⟨header, table, hRows, _⟩
        cases hRows
  | cons raw raws =>
      simp only [bind_eq_ok_iff, headerFields_cons_eq_ok_iff,
        column_eq_ok_iff, List.tail_cons, mapM_item_eq_ok_iff,
        List.map_cons, List.cons.injEq]
      constructor
      · rintro ⟨header, hHeader, _, ⟨hName, rfl⟩, _,
          ⟨hCode, rfl⟩, table, hTable, rfl⟩
        exact
          ⟨header, table, ⟨hHeader, hTable⟩, hName, hCode, rfl⟩
      · rintro ⟨header, table, ⟨hHeader, hTable⟩, hName, hCode,
          rfl⟩
        exact
          ⟨header, hHeader, _, ⟨hName, rfl⟩, _, ⟨hCode, rfl⟩,
            table, hTable, rfl⟩

end ItemTable

end LootFilter
