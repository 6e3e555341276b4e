import LootFilter.Proofs.Catalog
import LootFilter.Proofs.Json.Whole

/-
  Looking up assets in a loaded index.

  An index is an array of objects, each read into a map of its
  own, and the entries of all maps are added in the order of
  the array.  A code that is given more than once, in one
  object or in several, has the asset given last, no matter in
  which order the entries of each map are taken.

  Main declarations:
    * `AssetIndex.Stands`
    * `AssetIndex.stands_iff`
    * `AssetIndex.LastOf`
    * `AssetIndex.lastOf_flatten_iff`
    * `AssetIndex.looksUpLast_of_load`
-/

namespace LootFilter

open Json (Document Literal Fault Token)

------------------------------------------------------------
-- Arrays of Objects
------------------------------------------------------------

namespace Json.Document

variable {α : Type} {read : Document → Except Fault α}
variable {d : Document}

/- An array is read if it has no fault and each item is. -/
theorem each_eq_ok_iff {as : List α} :
    d.each read = .ok as ↔
      ∃ items,
        d = .array items none ∧
          List.Forall₂ (fun item a => read item = .ok a)
            items as := by
  cases d with
  | array items fault =>
      simp only [each, bind_eq_ok_iff, mapM_eq_ok_iff,
        Document.array.injEq]
      constructor
      · rintro ⟨bs, hItems, _, hFault, hDone⟩
        cases hDone
        cases fault with
        | none => exact ⟨items, ⟨rfl, rfl⟩, hItems⟩
        | some e => cases hFault
      · rintro ⟨_, ⟨rfl, rfl⟩, hItems⟩
        exact ⟨as, hItems, (), rfl, rfl⟩
  | _ => simp [each]

/- An object is read if it has no fault and each member is. -/
theorem entries_eq_ok_iff {as : List (String × α)} :
    d.entries read = .ok as ↔
      ∃ members,
        d = .object members none ∧
          List.Forall₂
            (fun m a => m.1.text = .ok a.1 ∧ read m.2 = .ok a.2)
            members as := by
  cases d with
  | object members fault =>
      have hMember :
          ∀ (m : Literal × Document) (a : String × α),
            (∃ key,
                m.1.text = .ok key ∧
                  ∃ b,
                    read m.2 = .ok b ∧
                      pure (key, b) =
                        (Except.ok a : Except Fault _)) ↔
              m.1.text = .ok a.1 ∧ read m.2 = .ok a.2 := by
        rintro m ⟨key, b⟩
        constructor
        · rintro ⟨_, hKey, _, hRead, hDone⟩
          cases hDone
          exact ⟨hKey, hRead⟩
        · rintro ⟨hKey, hRead⟩
          exact ⟨key, hKey, b, hRead, rfl⟩
      simp only [entries, bind_eq_ok_iff, mapM_eq_ok_iff,
        hMember, Document.object.injEq]
      constructor
      · rintro ⟨bs, hMembers, _, hFault, hDone⟩
        cases hDone
        cases fault with
        | none =>
            exact ⟨members, ⟨rfl, rfl⟩, hMembers⟩
        | some e => cases hFault
      · rintro ⟨_, ⟨rfl, rfl⟩, hMembers⟩
        exact ⟨as, hMembers, (), rfl, rfl⟩
  | _ => simp [entries]

end Json.Document

namespace AssetIndex

/- Entries of an index: codes with their assets. -/
abbrev Entries :=
  Assoc String String

variable {es fs group : Entries} {groups maps : List Entries}
variable {code asset : String} {text : String}

------------------------------------------------------------
-- The Text of an Index
------------------------------------------------------------

/- Whether a member of an object is read as an entry. -/
def Member
    (m : Literal × Document)
    (entry : String × String) : Prop :=
  m.1.text = .ok entry.1 ∧ assetOfDocument m.2 = .ok entry.2

/-
  Whether a text is an index with groups of entries: an array
  of objects whose members are read as the entries, in order.
-/
def Stands (text : String) (groups : List Entries) : Prop :=
  ∃ objects : List (List (Literal × Document)),
    Token.lex text.toList =
        (Document.array
          (objects.map fun members => .object members none)
          none).tokens ∧
      List.Forall₂ (List.Forall₂ Member) objects groups

/- A reference to an asset is whole. -/
theorem isWhole_of_assetOfDocument
    {d : Document}
    (hAsset : assetOfDocument d = .ok asset) :
    d.IsWhole := by
  unfold assetOfDocument at hAsset
  rcases bind_eq_ok_iff.mp hAsset with ⟨fields, hRecord, _⟩
  exact Document.isWhole_of_record hRecord

/- Objects of references are whole. -/
theorem isWhole_of_members
    {members : List (Literal × Document)}
    (hMembers : List.Forall₂ Member members group) :
    (Document.object members none).IsWhole := by
  apply Document.IsWhole.object
  intro m hMem
  rcases exists_mem_of_forall₂ hMembers hMem with
    ⟨entry, _, _, hAsset⟩
  exact isWhole_of_assetOfDocument hAsset

/- And so is an array of them. -/
theorem isWhole_of_objects
    {objects : List (List (Literal × Document))}
    (hObjects :
      List.Forall₂ (List.Forall₂ Member) objects groups) :
    (Document.array
      (objects.map fun members => .object members none)
      none).IsWhole := by
  apply Document.IsWhole.array
  intro d hMem
  rcases List.mem_map.mp hMem with ⟨members, hIn, rfl⟩
  rcases exists_mem_of_forall₂ hObjects hIn with
    ⟨group, _, hMembers⟩
  exact isWhole_of_members hMembers

/- An index is read from an array of objects. -/
theorem each_entries_eq_ok_iff
    {d : Document} :
    d.each (Document.entries assetOfDocument) = .ok groups ↔
      ∃ objects : List (List (Literal × Document)),
        d =
            .array
              (objects.map fun members => .object members none)
              none ∧
          List.Forall₂ (List.Forall₂ Member) objects groups := by
  rw [Document.each_eq_ok_iff]
  constructor
  · rintro ⟨items, rfl, hItems⟩
    simp only [Document.entries_eq_ok_iff] at hItems
    induction hItems with
    | nil => exact ⟨[], rfl, List.Forall₂.nil⟩
    | cons hFirst _ ih =>
        rcases hFirst with ⟨members, rfl, hMembers⟩
        rcases ih with ⟨objects, hEq, hObjects⟩
        cases hEq
        exact
          ⟨members :: objects, rfl,
            List.Forall₂.cons hMembers hObjects⟩
  · rintro ⟨objects, rfl, hObjects⟩
    refine ⟨_, rfl, ?_⟩
    rw [List.forall₂_map_left_iff]
    apply hObjects.imp
    intro members group hMembers
    exact
      Document.entries_eq_ok_iff.mpr ⟨members, rfl, hMembers⟩

/- A text is read as the groups of the index that it is. -/
theorem stands_iff :
    Json.decode
        (Document.each (Document.entries assetOfDocument))
        text =
        .ok groups ↔
      Stands text groups := by
  have hWhole :
      ∀ d groups,
        Document.each (Document.entries assetOfDocument) d =
            .ok groups →
          d.IsWhole := by
    intro d groups hRead
    rcases each_entries_eq_ok_iff.mp hRead with
      ⟨objects, rfl, hObjects⟩
    exact isWhole_of_objects hObjects
  rw [Json.decode_eq_ok_iff_tokens hWhole]
  constructor
  · rintro ⟨d, hTokens, hRead⟩
    rcases each_entries_eq_ok_iff.mp hRead with
      ⟨objects, rfl, hObjects⟩
    exact ⟨objects, hTokens, hObjects⟩
  · rintro ⟨objects, hTokens, hObjects⟩
    exact
      ⟨_, hTokens,
        each_entries_eq_ok_iff.mpr ⟨objects, rfl, hObjects⟩⟩

/- So a text is an index in one way only. -/
theorem Stands.unique
    {others : List Entries}
    (hStands : Stands text groups)
    (hOther : Stands text others) :
    groups = others := by
  have hRead := stands_iff.mpr hStands
  rw [stands_iff.mpr hOther] at hRead
  exact (Except.ok.inj hRead).symm

/- What is read of an index is the entries of its groups. -/
theorem decode_eq_ok_iff :
    Json.decode assetIndexOfDocument text = .ok es ↔
      ∃ groups, Stands text groups ∧ groups.flatten = es := by
  simp only [← stands_iff, Json.decode_eq_ok_iff]
  unfold assetIndexOfDocument
  rw [bind_eq_ok_iff]
  constructor
  · rintro ⟨⟨groups, hGroups, hDone⟩, hRest⟩
    cases hDone
    exact ⟨groups, ⟨hGroups, hRest⟩, rfl⟩
  · rintro ⟨groups, ⟨hGroups, hRest⟩, rfl⟩
    exact ⟨⟨groups, hGroups, rfl⟩, hRest⟩

------------------------------------------------------------
-- Last Occurrences
------------------------------------------------------------

/- Whether an asset is the one given last for a code. -/
def LastOf (es : Entries) (code asset : String) : Prop :=
  ∃ before after,
    es = before ++ (code, asset) :: after ∧
      code ∉ Assoc.keys after

/- Nothing is last among no entries. -/
theorem not_lastOf_nil : ¬ LastOf [] code asset := by
  rintro ⟨before, after, hCut, _⟩
  simp at hCut

/- An entry in front is last if its code is not given again. -/
theorem lastOf_cons_iff
    {entry : String × String} :
    LastOf (entry :: es) code asset ↔
      LastOf es code asset ∨
        (entry = (code, asset) ∧ code ∉ Assoc.keys es) := by
  constructor
  · rintro ⟨before, after, hCut, hNew⟩
    cases before with
    | nil =>
        cases hCut
        exact Or.inr ⟨rfl, hNew⟩
    | cons first before =>
        cases hCut
        exact Or.inl ⟨before, after, rfl, hNew⟩
  · rintro (⟨before, after, rfl, hNew⟩ | ⟨rfl, hNew⟩)
    · exact ⟨entry :: before, after, rfl, hNew⟩
    · exact ⟨[], es, rfl, hNew⟩

/- A code is given if and only if it is given last somewhere. -/
theorem exists_lastOf_iff :
    (∃ asset, LastOf es code asset) ↔ code ∈ Assoc.keys es := by
  induction es with
  | nil => simp [Assoc.keys, not_lastOf_nil]
  | cons entry es ih =>
      obtain ⟨key, value⟩ := entry
      simp only [lastOf_cons_iff, exists_or, ih, Assoc.keys,
        List.map_cons, List.mem_cons, Prod.mk.injEq]
      constructor
      · rintro (hMem | ⟨_, ⟨rfl, _⟩, _⟩)
        · exact Or.inr hMem
        · exact Or.inl rfl
      · rintro (rfl | hMem)
        · by_cases hAgain : code ∈ es.map Prod.fst
          · exact Or.inl hAgain
          · exact Or.inr ⟨value, ⟨rfl, rfl⟩, hAgain⟩
        · exact Or.inl hMem

/- The last one of several lists is in the last that has one. -/
theorem lastOf_append_iff :
    LastOf (es ++ fs) code asset ↔
      LastOf fs code asset ∨
        (LastOf es code asset ∧ code ∉ Assoc.keys fs) := by
  induction es with
  | nil => simp [not_lastOf_nil]
  | cons entry es ih =>
      have hKeys :
          code ∉ Assoc.keys (es ++ fs) ↔
            code ∉ Assoc.keys es ∧ code ∉ Assoc.keys fs := by
        simp [Assoc.keys]
      rw [List.cons_append, lastOf_cons_iff, ih, lastOf_cons_iff,
        hKeys]
      tauto

/- With distinct codes, every entry is the last of its code. -/
theorem lastOf_iff_mem
    (hNodup : (Assoc.keys es).Nodup) :
    LastOf es code asset ↔ (code, asset) ∈ es := by
  constructor
  · rintro ⟨before, after, rfl, _⟩
    simp
  · intro hMem
    rcases List.append_of_mem hMem with ⟨before, after, rfl⟩
    refine ⟨before, after, rfl, ?_⟩
    simp only [Assoc.keys, List.map_append, List.map_cons]
      at hNodup
    exact (List.nodup_cons.mp (List.nodup_append.mp hNodup).2.1).1

------------------------------------------------------------
-- Maps
------------------------------------------------------------

/- The map that entries are read into, on top of another one. -/
def insertAll (m : Entries) (es : Entries) : Entries :=
  es.foldl (fun m entry => Assoc.set entry.1 entry.2 m) m

/- Adding an index to a catalog is inserting its entries. -/
theorem assets_addAssets (c : Catalog) (es : Entries) :
    (c.addAssets es).assets = insertAll c.assets es := by
  unfold Catalog.addAssets insertAll
  induction es generalizing c with
  | nil => rfl
  | cons entry es ih => exact ih (c.setAsset entry.1 entry.2)

/- Inserting goes on with distinct codes. -/
theorem nodup_keys_insertAll
    {m : Entries}
    (hNodup : (Assoc.keys m).Nodup)
    (es : Entries) :
    (Assoc.keys (insertAll m es)).Nodup := by
  unfold insertAll
  induction es generalizing m with
  | nil => exact hNodup
  | cons entry es ih =>
      exact ih (Assoc.nodup_keys_set hNodup entry.1 entry.2)

/- A map has what was inserted last, or what it had before. -/
theorem find?_insertAll_iff
    {m : Entries} :
    Assoc.find? code (insertAll m es) = some asset ↔
      LastOf es code asset ∨
        (Assoc.find? code m = some asset ∧
          code ∉ Assoc.keys es) := by
  induction es generalizing m with
  | nil => simp [insertAll, not_lastOf_nil, Assoc.keys]
  | cons entry es ih =>
      obtain ⟨key, value⟩ := entry
      have hStep :
          insertAll m ((key, value) :: es) =
            insertAll (Assoc.set key value m) es :=
        rfl
      rw [hStep, ih, lastOf_cons_iff]
      by_cases hKey : code = key
      · subst hKey
        simp [Assoc.keys]
      · rw [Assoc.find?_set_of_ne hKey]
        simp [Assoc.keys, hKey, Ne.symm hKey]

/-
  Whether a list is the entries of the map that a group is
  read into, in whatever order these are taken.
-/
def Iterates (taken group : Entries) : Prop :=
  taken.Perm (insertAll [] group)

/- Taken in any order, the entries are the last ones. -/
theorem Iterates.lastOf_iff
    {taken : Entries}
    (hTaken : Iterates taken group) :
    LastOf taken code asset ↔ LastOf group code asset := by
  have hMap : (Assoc.keys (insertAll [] group)).Nodup :=
    nodup_keys_insertAll (by simp [Assoc.keys]) group
  have hNodup : (Assoc.keys taken).Nodup :=
    (hTaken.map Prod.fst).nodup_iff.mpr hMap
  rw [lastOf_iff_mem hNodup, hTaken.mem_iff,
    ← Assoc.find?_eq_some_iff hMap, find?_insertAll_iff]
  simp [Assoc.find?]

/-
  In all groups together, too, the last asset of a code does
  not depend on how each map was taken.
-/
theorem lastOf_flatten_iff
    (hMaps : List.Forall₂ Iterates maps groups) :
    LastOf maps.flatten code asset ↔
      LastOf groups.flatten code asset := by
  induction hMaps generalizing asset with
  | nil => exact Iff.rfl
  | @cons taken group maps groups hFirst _ ih =>
      have hKeys :
          code ∈ Assoc.keys maps.flatten ↔
            code ∈ Assoc.keys groups.flatten := by
        simp only [← exists_lastOf_iff, ih]
      rw [List.flatten_cons, List.flatten_cons,
        lastOf_append_iff, lastOf_append_iff, ih,
        hFirst.lastOf_iff, hKeys]

------------------------------------------------------------
-- Loaded Catalogs
------------------------------------------------------------

/-
  What a catalog that is loaded with an index finds: for each
  code the last asset in the text, and nothing for a code that
  is not given.  The same is found however the maps of the
  groups are taken.
-/
structure LooksUpLast
    (c : Catalog)
    (groups : List Entries) : Prop where
  last :
    ∀ code asset,
      c.asset? code = some asset ↔
        LastOf groups.flatten code asset
  missing :
    ∀ code,
      c.asset? code = none ↔
        code ∉ Assoc.keys groups.flatten
  anyOrder :
    ∀ maps,
      List.Forall₂ Iterates maps groups →
        ∀ code,
          (Catalog.empty.addAssets maps.flatten).asset? code =
            c.asset? code

/- Assets that were inserted into no others are the last. -/
theorem looksUpLast_of_assets
    {c : Catalog}
    (hAssets : c.assets = insertAll [] groups.flatten) :
    LooksUpLast c groups := by
  have hLast :
      ∀ code asset,
        c.asset? code = some asset ↔
          LastOf groups.flatten code asset := by
    intro code asset
    rw [Catalog.asset?, hAssets, find?_insertAll_iff]
    simp [Assoc.find?]
  refine ⟨hLast, ?_, ?_⟩
  · intro code
    rw [← exists_lastOf_iff, Option.eq_none_iff_forall_ne_some,
      not_exists]
    exact forall_congr' fun asset => not_congr (hLast code asset)
  · intro maps hMaps code
    apply Option.ext
    intro asset
    rw [hLast, ← lastOf_flatten_iff hMaps, Catalog.asset?,
      assets_addAssets, find?_insertAll_iff]
    simp [Catalog.empty, Assoc.find?]

/-
  A catalog that is loaded from a directory with an index has
  the last asset of each code in its text, which is an index
  in one way only.
-/
theorem looksUpLast_of_load
    {d : Disk}
    {dir : Path}
    {c : Catalog}
    (hLoad : Catalog.load d dir = .ok c)
    (hText :
      DataFile.readText d (DataFile.assetIndex dir) = .ok text) :
    ∃ groups,
      (∀ others, Stands text others ↔ others = groups) ∧
        LooksUpLast c groups := by
  rcases Catalog.exists_base_of_load hLoad with
    ⟨base, entries, _, _, hNone, hEntries, rfl⟩
  have hFile : d.hasFile (DataFile.assetIndex dir) = true := by
    rcases DataFile.readText_eq_ok_iff.mp hText with
      ⟨bytes, _, hBytes, _⟩
    exact Disk.hasFile_iff.mpr ⟨bytes, hBytes⟩
  have hDecode :
      Json.decode assetIndexOfDocument text = .ok entries := by
    unfold Catalog.loadIfFile at hEntries
    rw [if_pos hFile, Catalog.loadJson_eq_ok_iff] at hEntries
    unfold DataFile.readJson at hEntries
    rw [hText] at hEntries
    dsimp only at hEntries
    split at hEntries
    · cases hEntries
    · rename_i found hFound
      cases hEntries
      exact hFound
  rcases decode_eq_ok_iff.mp hDecode with
    ⟨groups, hStands, rfl⟩
  refine ⟨groups, ?_, ?_⟩
  · intro others
    constructor
    · exact fun hOther => hOther.unique hStands
    · rintro rfl
      exact hStands
  · apply looksUpLast_of_assets
    rw [assets_addAssets, hNone]

/- An index that gives a code twice in each of two objects. -/
def repeatedIndex : String :=
  "[\x7b\"cap\":\x7b\"asset\":\"a\"\x7d,\"cap\":[\"b\"]\x7d," ++
    "\x7b\"cap\":\x7b\"asset\":\"c\"\x7d,\"rin\":[\"r\"]," ++
    "\"cap\":\x7b\"asset\":\"d\"\x7d\x7d]"

/- A data directory with it. -/
def repeatedTree : Disk :=
  ⟨[(["data"], .folder), (["data", "local"], .folder),
    (["data", "local", "lng"], .folder),
    (["data", "local", "lng", "strings"], .folder),
    (["data", "local", "lng", "strings", "item-names.json"],
      .file "[]".toUTF8),
    (["data", "local", "lng", "strings", "item-runes.json"],
      .file "[]".toUTF8),
    (["data", "global"], .folder),
    (["data", "global", "excel"], .folder),
    (["data", "global", "excel", "armor.txt"],
      .file "name\tcode\n".toUTF8),
    (["data", "hd"], .folder),
    (["data", "hd", "items"], .folder),
    (["data", "hd", "items", "items.json"],
      .file repeatedIndex.toUTF8)], []⟩

/- The catalog of the directory. -/
def repeatedCatalog : Catalog :=
  { names := []
    runes := []
    classes := [(.rune, BaseSet.ofList runeCodes)]
    assets := [("cap", "d"), ("rin", "r")] }

/- The last of the four assets is the one that is found. -/
theorem looksUpLast_of_load_repeated :
    (Catalog.load repeatedTree ⟨["data"]⟩ = .ok repeatedCatalog ∧
      DataFile.readText repeatedTree
          (DataFile.assetIndex ⟨["data"]⟩) =
        .ok repeatedIndex) ∧
      repeatedCatalog.asset? "cap" = some "d" ∧
      ∃ groups,
        (∀ others,
          Stands repeatedIndex others ↔ others = groups) ∧
          LooksUpLast repeatedCatalog groups := by
  have hLoad :
      Catalog.load repeatedTree ⟨["data"]⟩ =
        .ok repeatedCatalog := by
    decide +kernel
  have hText :
      DataFile.readText repeatedTree
          (DataFile.assetIndex ⟨["data"]⟩) =
        .ok repeatedIndex := by
    decide +kernel
  exact
    ⟨⟨hLoad, hText⟩, by decide, looksUpLast_of_load hLoad hText⟩

end AssetIndex

end LootFilter
