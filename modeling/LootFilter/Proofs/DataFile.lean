import LootFilter.DataFile
import LootFilter.Effect
import LootFilter.Proofs.Disk.Files

/-
  What the bytes of a data file are read as.

  A document is read from the bytes that stand at the place of
  its path.  Bytes that one reader takes for an array are no
  descriptor of an asset for another one.

  Main declarations:
    * `DataFile.Holds`
    * `DataFile.readJson_eq_ok_iff`
    * `Json.Document.valueWithin_array_eq_ok_iff`
    * `Json.Document.valueWithin_object_eq_ok_iff`
    * `Json.ReadsArrays`
    * `DataFile.locate_ne_of_readsArrays`
-/

namespace LootFilter

open Json (Document Value Literal Fault)

------------------------------------------------------------
-- Bytes
------------------------------------------------------------

/- A file is read as the bytes that stand at its place. -/
theorem Disk.read_eq_ok_iff
    {d : Disk}
    {p : Path}
    {bytes : ByteArray} :
    d.read p = .ok bytes ↔
      ∃ l,
        d.locate p = .ok l ∧
          d.node? l = some (.file bytes) := by
  rw [read, bind_eq_ok_iff, ← lookup_eq_ok_iff]
  constructor
  · rintro ⟨n, hLookup, hFile⟩
    cases n with
    | folder => cases hFile
    | file present =>
        cases hFile
        exact hLookup
  · intro hLookup
    exact ⟨.file bytes, hLookup, rfl⟩

/- A file is there if it can be read. -/
theorem Disk.hasFile_iff
    {d : Disk}
    {p : Path} :
    d.hasFile p = true ↔ ∃ bytes, d.read p = .ok bytes := by
  unfold hasFile read
  cases d.lookup p with
  | error e => simp [bind, Except.bind]
  | ok n => cases n <;> simp [bind, Except.bind]

/- Paths that lead to the same place are read alike. -/
theorem Disk.read_of_locate
    {d : Disk}
    {p q : Path}
    (hSame : d.locate p = d.locate q) :
    d.read p = d.read q ∧ d.hasFile p = d.hasFile q := by
  simp only [read, hasFile, lookup, hSame, and_self]

/- A text is read from bytes that are one. -/
theorem DataFile.readText_eq_ok_iff
    {d : Disk}
    {p : Path}
    {text : String} :
    readText d p = .ok text ↔
      ∃ bytes whole,
        d.read p = .ok bytes ∧
          String.fromUTF8? bytes = some whole ∧
          dropMark whole = text := by
  rw [readText, bind_eq_ok_iff]
  apply exists_congr
  intro bytes
  cases String.fromUTF8? bytes <;> simp

/- The bytes of a text are read as the text. -/
theorem DataFile.fromUTF8?_toUTF8 (s : String) :
    String.fromUTF8? s.toUTF8 = some s := by
  unfold String.fromUTF8?
  exact dif_pos s.isValidUTF8

/- And nothing else is read as it. -/
theorem DataFile.fromUTF8?_eq_some_iff
    {bytes : ByteArray}
    {s : String} :
    String.fromUTF8? bytes = some s ↔ bytes = s.toUTF8 := by
  constructor
  · intro hRead
    unfold String.fromUTF8? at hRead
    split at hRead
    · cases hRead
      rfl
    · cases hRead
  · rintro rfl
    exact fromUTF8?_toUTF8 s

/- The mark in front of a text is dropped again. -/
theorem DataFile.dropMark_append (s : String) :
    dropMark (String.ofList [byteOrderMark] ++ s) = s := by
  simp [dropMark]

/- Whether bytes are a text that is read as something. -/
def DataFile.Holds
    {α : Type}
    (read : Document → Except Fault α)
    (bytes : ByteArray)
    (a : α) : Prop :=
  ∃ whole,
    String.fromUTF8? bytes = some whole ∧
      Json.decode read (dropMark whole) = .ok a

/- Bytes are read as one thing only. -/
theorem DataFile.Holds.unique
    {α : Type}
    {read : Document → Except Fault α}
    {bytes : ByteArray}
    {a b : α}
    (hA : Holds read bytes a)
    (hB : Holds read bytes b) :
    a = b := by
  rcases hA with ⟨whole, hWhole, hDecode⟩
  rcases hB with ⟨other, hOther, hOtherDecode⟩
  cases hWhole.symm.trans hOther
  cases hDecode.symm.trans hOtherDecode
  rfl

/- A file is read as what its bytes are. -/
theorem DataFile.readJson_eq_ok_iff
    {α : Type}
    {read : Document → Except Fault α}
    {d : Disk}
    {p : Path}
    {a : α} :
    readJson read d p = .ok a ↔
      ∃ l bytes,
        d.locate p = .ok l ∧
          d.node? l = some (.file bytes) ∧
          Holds read bytes a := by
  constructor
  · intro hJson
    unfold readJson at hJson
    split at hJson
    · cases hJson
    · rename_i hFound
      rcases readText_eq_ok_iff.mp hFound with
        ⟨bytes, whole, hBytes, hWhole, rfl⟩
      rcases Disk.read_eq_ok_iff.mp hBytes with
        ⟨l, hLocate, hFile⟩
      split at hJson
      · cases hJson
      · rename_i hDecode
        cases hJson
        exact ⟨l, bytes, hLocate, hFile, whole, hWhole, hDecode⟩
  · rintro ⟨l, bytes, hLocate, hFile, whole, hWhole, hDecode⟩
    have hFound :=
      readText_eq_ok_iff.mpr
        ⟨bytes, whole,
          Disk.read_eq_ok_iff.mpr ⟨l, hLocate, hFile⟩,
          hWhole, rfl⟩
    unfold readJson
    simp only [hFound, hDecode]

/- A text is read as the one document that it holds. -/
theorem Json.decode_eq_ok_iff
    {α : Type}
    {read : Document → Except Fault α}
    {s : String}
    {a : α} :
    decode read s = .ok a ↔
      read (Document.ofTokens (Token.lex s.toList)).1 = .ok a ∧
        (Document.ofTokens (Token.lex s.toList)).2 = [] := by
  unfold decode
  rw [bind_eq_ok_iff]
  cases (Document.ofTokens (Token.lex s.toList)).2 with
  | nil => simp [pure, Except.pure]
  | cons t ts => simp

------------------------------------------------------------
-- Values
------------------------------------------------------------

/- Nothing is wrong if there is no fault. -/
theorem Json.Fault.check_eq_ok_iff
    {fault : Option Fault}
    {u : Unit} :
    Fault.check fault = .ok u ↔ fault = none := by
  cases fault <;> simp [Fault.check]

namespace Json.Document

variable {depth : Nat} {v : Value} {fault : Option Fault}

/- The value of a numeral is its number. -/
theorem valueWithin_number_eq_ok_iff
    {n : Json.Numeral} :
    valueWithin depth (.number n) = .ok v ↔
      ∃ x, n.number? = some x ∧ v = .number x := by
  rw [valueWithin]
  cases n.number? with
  | none => simp
  | some x => simp [eq_comm]

/- The value of a literal is its text. -/
theorem valueWithin_text_eq_ok_iff
    {l : Literal} :
    valueWithin depth (.text l) = .ok v ↔
      ∃ s, l.text = .ok s ∧ v = .text s := by
  rw [valueWithin, map_eq_ok_iff]
  simp only [eq_comm]

/- The value of an array holds the values of its items. -/
theorem valueWithin_array_eq_ok_iff
    {ds : List Document} :
    valueWithin depth (.array ds fault) = .ok v ↔
      ∃ below vs,
        depth = below + 1 ∧ fault = none ∧
          itemsWithin below ds = .ok vs ∧ v = .array vs := by
  cases depth with
  | zero => simp [valueWithin]
  | succ depth =>
      simp only [valueWithin, bind_eq_ok_iff,
        Fault.check_eq_ok_iff, pure, Except.pure,
        Except.ok.injEq]
      constructor
      · rintro ⟨vs, hItems, _, hFault, rfl⟩
        exact ⟨depth, vs, rfl, hFault, hItems, rfl⟩
      · rintro ⟨_, vs, hDepth, hFault, hItems, rfl⟩
        cases hDepth
        exact ⟨vs, hItems, (), hFault, rfl⟩

/- The value of an object holds those of its members. -/
theorem valueWithin_object_eq_ok_iff
    {es : List (Literal × Document)} :
    valueWithin depth (.object es fault) = .ok v ↔
      ∃ below ms,
        depth = below + 1 ∧ fault = none ∧
          membersWithin below [] es = .ok ms ∧
          v = .object ms := by
  cases depth with
  | zero => simp [valueWithin]
  | succ depth =>
      simp only [valueWithin, bind_eq_ok_iff,
        Fault.check_eq_ok_iff, pure, Except.pure,
        Except.ok.injEq]
      constructor
      · rintro ⟨ms, hMembers, _, hFault, rfl⟩
        exact ⟨depth, ms, rfl, hFault, hMembers, rfl⟩
      · rintro ⟨_, ms, hDepth, hFault, hMembers, rfl⟩
        cases hDepth
        exact ⟨ms, hMembers, (), hFault, rfl⟩

end Json.Document

------------------------------------------------------------
-- Arrays
------------------------------------------------------------

/- Whether a reader succeeds with arrays only. -/
def Json.ReadsArrays
    {α : Type}
    (read : Document → Except Fault α) : Prop :=
  ∀ d a, read d = .ok a → ∃ items fault, d = .array items fault

/- Reading each item needs an array. -/
theorem Json.readsArrays_each
    {α : Type}
    (read : Document → Except Fault α) :
    ReadsArrays (Document.each read) := by
  intro d a hRead
  cases d with
  | array items fault => exact ⟨items, fault, rfl⟩
  | _ => cases hRead

/- Reading the values needs an array. -/
theorem Json.readsArrays_values :
    ReadsArrays Document.values := by
  intro d a hRead
  cases d with
  | array items fault => exact ⟨items, fault, rfl⟩
  | _ => cases hRead

/- An array is no descriptor. -/
theorem DataFile.Holds.entities?_eq_none
    {α : Type}
    {read : Document → Except Fault α}
    {bytes : ByteArray}
    {a : α}
    {doc : Value}
    (hArray : Holds read bytes a)
    (hArrays : Json.ReadsArrays read)
    (hDoc : Holds Document.value bytes doc) :
    VisualEffect.entities? doc = none := by
  rcases hArray with ⟨whole, hWhole, hRead⟩
  rcases hDoc with ⟨other, hOther, hValue⟩
  rw [hWhole] at hOther
  cases hOther
  rcases hArrays _ _ (Json.decode_eq_ok_iff.mp hRead).1 with
    ⟨items, fault, hItems⟩
  have hWritten := (Json.decode_eq_ok_iff.mp hValue).1
  rw [hItems, Document.value,
    Document.valueWithin_array_eq_ok_iff] at hWritten
  rcases hWritten with ⟨_, vs, _, _, _, rfl⟩
  rfl

/- So a file that holds an array is not that of a descriptor. -/
theorem DataFile.locate_ne_of_readsArrays
    {α : Type}
    {read : Document → Except Fault α}
    {d : Disk}
    {p q : Path}
    {a : α}
    {doc : Value}
    (hArrays : Json.ReadsArrays read)
    (hArray : readJson read d p = .ok a)
    (hDoc : readJson Document.value d q = .ok doc)
    (hEntities : VisualEffect.entities? doc ≠ none) :
    d.locate p ≠ d.locate q := by
  intro hSame
  rcases readJson_eq_ok_iff.mp hArray with
    ⟨l, bytes, hPlace, hFile, hHolds⟩
  rcases readJson_eq_ok_iff.mp hDoc with
    ⟨m, present, hOther, hPresent, hValue⟩
  cases hPlace.symm.trans (hSame.trans hOther)
  cases hFile.symm.trans hPresent
  exact hEntities (hHolds.entities?_eq_none hArrays hValue)

end LootFilter
