import LootFilter.Proofs.Catalog

/-
  The two readings of a string table.

  A row is read as an entry of the catalog, and as a value
  that can be changed and written.  A field of an entry may be
  given only once, so both readings of an object find the same
  texts under its names.

  Main declarations:
    * `Entry.ofValue?`
    * `Entry.StoredIn`
    * `Json.Document.Agrees.namedFields`
    * `Json.Document.storedIn_of_ofDocument`
    * `Json.Document.forall₂_of_itemsWithin`
    * `DataFile.map_ofValue?_of_loadEntries`
-/

namespace LootFilter

open Json (Document Value Literal Fault)

/- The entry that a row is, if it has a text for a key. -/
def Entry.ofValue? (row : Value) : Option Entry :=
  (row.memberText? "Key").map fun key =>
    ⟨key, (row.memberText? "enUS").getD ""⟩

/-
  Whether an entry is what an object stores: its key, and its
  name unless that is empty and not given.
-/
def Entry.StoredIn
    (entry : Entry)
    (members : Assoc String Value) : Prop :=
  Assoc.find? "Key" members = some (.text entry.key) ∧
    (Assoc.find? "enUS" members = some (.text entry.name) ∨
      Assoc.find? "enUS" members = none ∧ entry.name = "")

/- It is then the entry of the object. -/
theorem Entry.StoredIn.ofValue?
    {entry : Entry}
    {members : Assoc String Value}
    (hStored : entry.StoredIn members) :
    Entry.ofValue? (.object members) = some entry := by
  obtain ⟨key, name⟩ := entry
  rcases hStored with ⟨hKey, hName | ⟨hNone, hEmpty⟩⟩
  · simp [Entry.ofValue?, Value.memberText?, Value.member?,
      Value.members?, Value.text?, hKey, hName]
  · simp_all [Entry.ofValue?, Value.memberText?, Value.member?,
      Value.members?, Value.text?]

------------------------------------------------------------
-- One Row
------------------------------------------------------------

namespace Json.Document

variable {fields : List String}
variable {found result : List (String × String)}
variable {done members : Assoc String Value} {depth : Nat}

/- Whether texts of fields are those stored under their names. -/
def Agrees
    (fields : List String)
    (found : List (String × String))
    (members : Assoc String Value) : Prop :=
  ∀ field ∈ fields,
    Assoc.find? field members =
      (found.lookup field).map Value.text

/- A field that is found first is stored first. -/
theorem Agrees.snoc
    (hAgrees : Agrees fields found done)
    {key s : String}
    (hNew : found.lookup key = none) :
    Agrees fields (found ++ [(key, s)])
      (Assoc.set key (.text s) done) := by
  intro field hField
  rw [List.lookup_append]
  by_cases hKey : field = key
  · subst hKey
    simp [hNew]
  · have hOther : [(key, s)].lookup field = none := by
      simp [List.lookup_cons, beq_eq_false_iff_ne.mpr hKey]
    rw [Assoc.find?_set_of_ne hKey, hAgrees field hField,
      hOther, Option.or_none]

/- A member that is no field is stored apart. -/
theorem Agrees.set
    (hAgrees : Agrees fields found done)
    {key : String}
    (hKey : key ∉ fields)
    (v : Value) :
    Agrees fields found (Assoc.set key v done) := by
  intro field hField
  have hNe : field ≠ key := by
    rintro rfl
    exact hKey hField
  rw [Assoc.find?_set_of_ne hNe]
  exact hAgrees field hField

/- A text has its text for a value. -/
theorem exists_text_of_asText
    {d : Document}
    {s : String}
    {v : Value}
    (hText : d.asText = .ok s)
    (hValue : valueWithin depth d = .ok v) :
    v = .text s := by
  cases d with
  | text l =>
      rw [asText] at hText
      rw [valueWithin, hText] at hValue
      cases hValue
      rfl
  | _ => cases hText

/- Both readings of members go on to agree. -/
theorem Agrees.namedFields
    (hAgrees : Agrees fields found done)
    {ds : List (Literal × Document)}
    (hFields : namedFields fields found ds = .ok result)
    (hMembers : membersWithin depth done ds = .ok members) :
    Agrees fields result members := by
  induction ds generalizing found done with
  | nil =>
      rw [Document.namedFields] at hFields
      rw [membersWithin] at hMembers
      cases hFields
      cases hMembers
      exact hAgrees
  | cons member ds ih =>
      obtain ⟨name, d⟩ := member
      rw [Document.namedFields] at hFields
      rw [membersWithin] at hMembers
      rcases bind_eq_ok_iff.mp hFields with
        ⟨key, hKey, hFields⟩
      rcases bind_eq_ok_iff.mp hMembers with
        ⟨again, hAgain, hMembers⟩
      rcases bind_eq_ok_iff.mp hMembers with
        ⟨v, hValue, hMembers⟩
      cases hKey.symm.trans hAgain
      split at hFields
      · split at hFields
        -- A field given twice would be replaced, but is refused.
        · cases hFields
        · rename_i hNew
          rcases bind_eq_ok_iff.mp hFields with
            ⟨s, hText, hFields⟩
          cases exists_text_of_asText hText hValue
          rw [Option.not_isSome_iff_eq_none] at hNew
          exact ih (hAgrees.snoc hNew) hFields hMembers
      · rename_i hOther
        rcases bind_eq_ok_iff.mp hFields with
          ⟨_, _, hFields⟩
        exact ih (hAgrees.set hOther v) hFields hMembers

/- Whether a document is an object. -/
def IsObject (d : Document) : Prop :=
  ∃ members fault, d = .object members fault

instance (d : Document) : Decidable d.IsObject :=
  match d with
  | .object members fault => isTrue ⟨members, fault, rfl⟩
  | .null => isFalse (by rintro ⟨_, _, h⟩; cases h)
  | .bool _ => isFalse (by rintro ⟨_, _, h⟩; cases h)
  | .number _ => isFalse (by rintro ⟨_, _, h⟩; cases h)
  | .text _ => isFalse (by rintro ⟨_, _, h⟩; cases h)
  | .array _ _ => isFalse (by rintro ⟨_, _, h⟩; cases h)
  | .broken _ _ => isFalse (by rintro ⟨_, _, h⟩; cases h)

/- The value of an object has members. -/
theorem exists_members_of_isObject
    {d : Document}
    (hObject : d.IsObject)
    {v : Value}
    (hValue : valueWithin depth d = .ok v) :
    ∃ members, v = .object members := by
  rcases hObject with ⟨ds, fault, rfl⟩
  rcases valueWithin_object_eq_ok_iff.mp hValue with
    ⟨_, members, _, _, _, rfl⟩
  exact ⟨members, rfl⟩

/- Members are the value of an object only. -/
theorem exists_object_of_valueWithin
    {d : Document}
    (hValue : valueWithin depth d = .ok (.object members)) :
    ∃ ds fault below,
      d = .object ds fault ∧
        membersWithin below [] ds = .ok members := by
  cases d with
  | object ds fault =>
      rcases valueWithin_object_eq_ok_iff.mp hValue with
        ⟨below, found, _, _, hMembers, hDone⟩
      cases hDone
      exact ⟨ds, fault, below, rfl, hMembers⟩
  | array items fault =>
      rcases valueWithin_array_eq_ok_iff.mp hValue with
        ⟨_, _, _, _, _, hDone⟩
      cases hDone
  | text l =>
      rcases valueWithin_text_eq_ok_iff.mp hValue with
        ⟨_, _, hDone⟩
      cases hDone
  | number n =>
      rcases valueWithin_number_eq_ok_iff.mp hValue with
        ⟨_, _, hDone⟩
      cases hDone
  | _ => cases hValue

/- The entry of an object is what the object stores. -/
theorem storedIn_of_ofDocument
    {d : Document}
    {entry : Entry}
    (hEntry : Entry.ofDocument d = .ok entry)
    (hValue : valueWithin depth d = .ok (.object members)) :
    entry.StoredIn members := by
  rcases exists_object_of_valueWithin hValue with
    ⟨ds, fault, below, rfl, hMembers⟩
  unfold Entry.ofDocument at hEntry
  rcases bind_eq_ok_iff.mp hEntry with
    ⟨result, hRecord, hEntry⟩
  rcases bind_eq_ok_iff.mp hRecord with
    ⟨found, hFields, hRecord⟩
  rcases bind_eq_ok_iff.mp hRecord with ⟨_, _, hDone⟩
  cases hDone
  have hStart : Agrees ["Key", "enUS"] [] [] :=
    fun _ _ => rfl
  have hAgrees := hStart.namedFields hFields hMembers
  have hKeyed := hAgrees "Key" (by simp)
  have hNamed := hAgrees "enUS" (by simp)
  split at hEntry
  · cases hEntry
  · rename_i key hKey
    cases hEntry
    rw [hKey] at hKeyed
    refine ⟨hKeyed, ?_⟩
    cases hName : result.lookup "enUS" with
    | none => exact Or.inr ⟨by rw [hNamed, hName]; rfl, rfl⟩
    | some name => exact Or.inl (by rw [hNamed, hName]; rfl)

/- The entry of an object is that of its value. -/
theorem ofValue?_of_ofDocument
    {d : Document}
    (hObject : d.IsObject)
    {entry : Entry}
    {v : Value}
    (hEntry : Entry.ofDocument d = .ok entry)
    (hValue : valueWithin depth d = .ok v) :
    Entry.ofValue? v = some entry := by
  rcases exists_members_of_isObject hObject hValue with
    ⟨members, rfl⟩
  exact (storedIn_of_ofDocument hEntry hValue).ofValue?

------------------------------------------------------------
-- All Rows
------------------------------------------------------------

/- The items of an array; other documents have none. -/
def items : Document → List Document
| .array items _ => items
| _ => []

/- The entries and the values of documents, side by side. -/
theorem forall₂_of_itemsWithin
    {ds : List Document}
    {entries : List Entry}
    {rows : List Value}
    (hEntries : ds.mapM Entry.ofDocument = .ok entries)
    (hRows : itemsWithin depth ds = .ok rows) :
    List.Forall₂
      (fun entry row =>
        ∃ d ∈ ds,
          Entry.ofDocument d = .ok entry ∧
            valueWithin depth d = .ok row)
      entries rows := by
  induction ds generalizing entries rows with
  | nil =>
      rw [itemsWithin] at hRows
      cases hEntries
      cases hRows
      exact .nil
  | cons d ds ih =>
      rw [List.mapM_cons] at hEntries
      rw [itemsWithin] at hRows
      rcases bind_eq_ok_iff.mp hEntries with
        ⟨entry, hEntry, hEntries⟩
      rcases bind_eq_ok_iff.mp hEntries with
        ⟨restEntries, hRestEntries, hDone⟩
      cases hDone
      rcases bind_eq_ok_iff.mp hRows with ⟨row, hRow, hRows⟩
      rcases bind_eq_ok_iff.mp hRows with
        ⟨restRows, hRestRows, hDone⟩
      cases hDone
      refine .cons ⟨d, List.mem_cons_self, hEntry, hRow⟩ ?_
      apply (ih hRestEntries hRestRows).imp
      rintro entry row ⟨other, hMem, hBoth⟩
      exact ⟨other, List.mem_cons_of_mem _ hMem, hBoth⟩

/- The entries of objects are those of their values. -/
theorem map_ofValue?_of_itemsWithin
    {ds : List Document}
    (hObjects : ∀ d ∈ ds, d.IsObject)
    {entries : List Entry}
    {rows : List Value}
    (hEntries : ds.mapM Entry.ofDocument = .ok entries)
    (hRows : itemsWithin depth ds = .ok rows) :
    rows.map Entry.ofValue? = entries.map some := by
  have hBoth := forall₂_of_itemsWithin hEntries hRows
  rw [← List.forall₂_eq_eq_eq, List.forall₂_map_left_iff,
    List.forall₂_map_right_iff]
  apply hBoth.flip.imp
  rintro row entry ⟨d, hMem, hEntry, hRow⟩
  exact ofValue?_of_ofDocument (hObjects d hMem) hEntry hRow

end Json.Document

------------------------------------------------------------
-- Tables
------------------------------------------------------------

/- The documents of an array are each read. -/
theorem Json.mapM_items_of_decode
    {α : Type}
    {read : Document → Except Fault α}
    {s : String}
    {as : List α}
    (hDecode : decode (Document.each read) s = .ok as) :
    (Document.ofTokens (Token.lex s.toList)).1.items.mapM
        read =
      .ok as := by
  have hEach := (decode_eq_ok_iff.mp hDecode).1
  rcases readsArrays_each _ _ _ hEach with
    ⟨ds, fault, hArray⟩
  rw [hArray] at hEach ⊢
  rcases bind_eq_ok_iff.mp hEach with ⟨_, hMapped, hEach⟩
  rcases bind_eq_ok_iff.mp hEach with ⟨_, _, hDone⟩
  cases hDone
  exact hMapped

/- The documents of an array are each a value. -/
theorem Json.itemsWithin_of_decode
    {s : String}
    {rows : List Value}
    (hDecode : decode Document.values s = .ok rows) :
    Document.itemsWithin (Document.maxDepth - 1)
        (Document.ofTokens (Token.lex s.toList)).1.items =
      .ok rows := by
  have hValues := (decode_eq_ok_iff.mp hDecode).1
  rcases readsArrays_values _ _ hValues with
    ⟨ds, fault, hArray⟩
  rw [hArray] at hValues ⊢
  rcases bind_eq_ok_iff.mp hValues with ⟨_, hWithin, hValues⟩
  rcases bind_eq_ok_iff.mp hValues with ⟨_, _, hDone⟩
  cases hDone
  exact hWithin

/- Whether the rows of a table are all objects. -/
def DataFile.HasObjects (d : Disk) (p : Path) : Prop :=
  ∀ text,
    readText d p = .ok text →
      ∀ row ∈
        (Document.ofTokens (Json.Token.lex text.toList)).1.items,
        row.IsObject

/- Both readings of such a table find the same entries. -/
theorem DataFile.map_ofValue?_of_loadEntries
    {d : Disk}
    {p : Path}
    (hObjects : HasObjects d p)
    {entries : List Entry}
    {rows : List Value}
    (hEntries : Catalog.loadEntries d p = .ok entries)
    (hRows : readJson Document.values d p = .ok rows) :
    rows.map Entry.ofValue? = entries.map some := by
  rcases readJson_eq_ok_iff.mp
      (Catalog.loadJson_eq_ok_iff.mp hEntries) with
    ⟨l, bytes, hLocate, hFile, whole, hWhole, hDecode⟩
  rcases readJson_eq_ok_iff.mp hRows with
    ⟨m, again, hAgain, hPresent, other, hOther, hRowsDecode⟩
  cases hLocate.symm.trans hAgain
  cases hFile.symm.trans hPresent
  cases hWhole.symm.trans hOther
  have hText : readText d p = .ok (dropMark whole) :=
    readText_eq_ok_iff.mpr
      ⟨bytes, whole, Disk.read_eq_ok_iff.mpr ⟨l, hLocate, hFile⟩,
        hWhole, rfl⟩
  exact
    Document.map_ofValue?_of_itemsWithin (hObjects _ hText)
      (Json.mapM_items_of_decode hDecode)
      (Json.itemsWithin_of_decode hRowsDecode)

end LootFilter
