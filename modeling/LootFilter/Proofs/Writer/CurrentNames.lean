import LootFilter.Proofs.Entries
import LootFilter.Proofs.Writer.Rows

/-
  The name that a rename finds is the name that was matched.

  Blocks are matched against the entries of a catalog, and
  names are changed in the values of the same file.  If both
  can be read from its text, they have the same length, and an
  object stores the texts of the entry beside it.  So a rename
  that is the only one of its base type gives a row the name
  that the rule makes of the name of the entry.

  Main declarations:
    * `SameTable`
    * `sameTable_of_decode`
-/

namespace LootFilter

open Json (Document Value)

/-
  Whether entries and rows are readings of one table: an
  object stores the entry beside it, and the first row with a
  renamed key gets a name made of the name of its entry.
-/
structure SameTable
    (entries : List Entry)
    (rows : List Value) : Prop where
  length : entries.length = rows.length
  stored :
    ∀ (i : Nat) (members : Assoc String Value),
      rows[i]? = some (.object members) →
        ∃ entry,
          entries[i]? = some entry ∧ entry.StoredIn members
  renamed :
    ∀ (renames : List (String × Rule)) (base : String)
      (rule : Rule) (i : Nat),
      (renames.map Prod.fst).Nodup →
        (base, rule) ∈ renames →
          rule.changesNames = true →
            FirstAt (rowKeys rows) i base →
              ∃ entry members name,
                entries[i]? = some entry ∧
                  entry.key = base ∧
                  rows[i]? = some (.object members) ∧
                  rule.displayName entry.name = some name ∧
                  (renameAll renames rows)[i]? =
                    some (.object
                      (Assoc.set "enUS" (.text name) members))

/- The entries and rows of one text are. -/
theorem sameTable_of_decode
    {s : String}
    {entries : List Entry}
    {rows : List Value}
    (hEntries :
      Json.decode (Document.each Entry.ofDocument) s =
        .ok entries)
    (hRows : Json.decode Document.values s = .ok rows) :
    SameTable entries rows := by
  have hBoth :=
    Document.forall₂_of_itemsWithin
      (Json.mapM_items_of_decode hEntries)
      (Json.itemsWithin_of_decode hRows)
  have hStored :
      ∀ (i : Nat) (members : Assoc String Value),
        rows[i]? = some (.object members) →
          ∃ entry,
            entries[i]? = some entry ∧
              entry.StoredIn members := by
    intro i members hRow
    rcases List.getElem?_eq_some_iff.mp hRow with ⟨hLt, hAt⟩
    have hFits : i < entries.length :=
      hBoth.length_eq ▸ hLt
    rcases hBoth.get hFits hLt with ⟨d, _, hEntry, hValue⟩
    exact
      ⟨entries[i], List.getElem?_eq_getElem hFits,
        Document.storedIn_of_ofDocument hEntry
          (hValue.trans (congrArg Except.ok hAt))⟩
  refine ⟨hBoth.length_eq, hStored, ?_⟩
  intro renames base rule i hDistinct hMem hChanges hFirst
  have hKey := hFirst.1
  unfold rowKeys at hKey
  rw [List.getElem?_map, Option.map_eq_some_iff] at hKey
  rcases hKey with ⟨row, hRow, hText⟩
  rcases exists_members_of_memberText? hText with
    ⟨members, rfl⟩
  rcases hStored i members hRow with ⟨entry, hEntry, hIn⟩
  have hOf := hIn.ofValue?
  simp only [Entry.ofValue?, hText, Option.map_some,
    Option.some.injEq] at hOf
  rcases renameRow_object hChanges members with
    ⟨name, hName, hRenamed⟩
  refine ⟨entry, members, name, hEntry, ?_, hRow, ?_, ?_⟩
  · rw [← hOf]
  · rw [← hOf]
    exact hName
  · rw [getElem?_renameAll_of_mem hDistinct hMem hFirst, hRow,
      Option.map_some, hRenamed]

/-
  A table with a row that is no object, a member that is given
  twice and a name with a numbered character.
-/
def mixedTable : String :=
  "[[\"r01\"], \x7b\"id\": 1, \"K\\u0065y\": \"cap\", " ++
    "\"id\": [2], \"enUS\": \"Cap\"\x7d]"

/- The members of its object. -/
def mixedMembers : Assoc String Value :=
  [ ("id", .array [.ofInt 2]), ("Key", .text "cap"),
    ("enUS", .text "Cap") ]

/- The object stores the entry beside it, and is renamed so. -/
theorem sameTable_of_decode_mixed :
    Json.decode (Document.each Entry.ofDocument) mixedTable =
        .ok [⟨"r01", ""⟩, ⟨"cap", "Cap"⟩] ∧
      Json.decode Document.values mixedTable =
        .ok [.array [.text "r01"], .object mixedMembers] ∧
      SameTable [⟨"r01", ""⟩, ⟨"cap", "Cap"⟩]
        [.array [.text "r01"], .object mixedMembers] := by
  have hEntries :
      Json.decode (Document.each Entry.ofDocument) mixedTable =
        .ok [⟨"r01", ""⟩, ⟨"cap", "Cap"⟩] := by
    decide +kernel
  have hRows :
      Json.decode Document.values mixedTable =
        .ok [.array [.text "r01"], .object mixedMembers] := by
    decide +kernel
  exact ⟨hEntries, hRows, sameTable_of_decode hEntries hRows⟩

end LootFilter
