import LootFilter.Proofs.Catalog
import LootFilter.Proofs.FirstPlaces
import LootFilter.Proofs.ItemTable

/-
  The item classes of a loaded catalog.

  Items are added one after the other, and what an item adds
  is seen in its own class only.  So a class is told by the
  codes of the items that belong to it, and these by the rows
  of the two tables.

  Main declarations:
    * `ItemClass.FirstHit`, `ItemClass.ofArmorName_eq_iff`
    * `Catalog.classBases_addItems`
    * `Catalog.classBases_of_load`
    * `Catalog.HasClasses`
    * `Catalog.hasClasses_of_load`
-/

namespace LootFilter

------------------------------------------------------------
-- The Class of an Item
------------------------------------------------------------

namespace ItemClass

variable {name code : String} {k : ItemClass}

/- Whether a name has one of some words in it. -/
def HasWord (words : List String) (name : String) : Prop :=
  ∃ word ∈ words, word.toList <:+: name.toList

/-
  Whether a class is the first one of a list that has a word
  in a name, or the unknown one after all of them.
-/
inductive FirstHit (name : String) :
    List (List String × ItemClass) → ItemClass → Prop where
| none : FirstHit name [] .unknown
| here
    {words : List String}
    {k : ItemClass}
    (hWord : HasWord words name)
    (rest : List (List String × ItemClass)) :
    FirstHit name ((words, k) :: rest) k
| later
    {words : List String}
    {j k : ItemClass}
    {rest : List (List String × ItemClass)}
    (hWord : ¬ HasWord words name)
    (hRest : FirstHit name rest k) :
    FirstHit name ((words, j) :: rest) k

/- A word is looked for anywhere in a name. -/
theorem any_occursIn_iff
    {words : List String} :
    (words.any fun word =>
        Text.occursIn word.toList name.toList) = true ↔
      HasWord words name := by
  rw [List.any_eq_true]
  simp only [Text.occursIn_iff]
  rfl

/- The class of an armor is the first one with a word. -/
theorem ofArmorName_eq_iff :
    ofArmorName name = k ↔ FirstHit name armorWords k := by
  unfold ofArmorName
  generalize armorWords = order
  dsimp only
  induction order with
  | nil =>
      constructor
      · rintro rfl
        exact .none
      · rintro ⟨⟩
        rfl
  | cons entry rest ih =>
      obtain ⟨words, j⟩ := entry
      rw [List.find?_cons]
      by_cases hWord : HasWord words name
      · rw [any_occursIn_iff.mpr hWord]
        constructor
        · rintro rfl
          exact .here hWord rest
        · intro hHit
          cases hHit with
          | here => rfl
          | later hNone => exact absurd hWord hNone
      · rw [Bool.eq_false_iff.mpr
          (fun hAny => hWord (any_occursIn_iff.mp hAny))]
        refine ih.trans ⟨FirstHit.later hWord, ?_⟩
        intro hHit
        cases hHit with
        | here hHere => exact absurd hHere hWord
        | later _ hRest => exact hRest

instance :
    Decidable (FirstHit name armorWords k) :=
  decidable_of_iff _ ofArmorName_eq_iff

/- It is one of the list or unknown. -/
theorem FirstHit.eq_unknown_or_mem
    {order : List (List String × ItemClass)}
    (hHit : FirstHit name order k) :
    k = .unknown ∨ k ∈ order.map (·.2) := by
  induction hHit with
  | none => exact Or.inl rfl
  | here _ rest => exact Or.inr List.mem_cons_self
  | later _ _ ih =>
      exact ih.imp_right (List.mem_cons_of_mem _)

/- So an armor is no ring, no amulet and no rune. -/
theorem ofArmorName_notMem (name : String) :
    ofArmorName name ∉ [.ring, .amulet, .rune] := by
  have hHit : FirstHit name armorWords (ofArmorName name) :=
    ofArmorName_eq_iff.mp rfl
  rcases hHit.eq_unknown_or_mem with hUnknown | hMem
  · rw [hUnknown]
    decide
  · intro hOther
    have hApart :
        ∀ k ∈ armorWords.map (·.2),
          k ∉ [ItemClass.ring, .amulet, .rune] := by
      decide
    exact hApart _ hMem hOther

/- The codes of rings and of amulets. -/
def miscCodes : List (ItemClass × String) :=
  [(.ring, "rin"), (.amulet, "amu")]

/- Another item is a ring or an amulet by its code. -/
theorem ofMiscCode_eq_some_iff :
    ofMiscCode code = some k ↔ (k, code) ∈ miscCodes := by
  unfold ofMiscCode miscCodes
  split_ifs with hRing hAmulet <;>
    simp_all [eq_comm]

/- Each of the two classes has one code. -/
theorem eq_of_mem_miscCodes
    {other : String}
    (hCode : (k, code) ∈ miscCodes)
    (hOther : (k, other) ∈ miscCodes) :
    other = code := by
  simp only [miscCodes, List.mem_cons, Prod.mk.injEq,
    List.not_mem_nil, or_false] at hCode hOther
  rcases hCode with ⟨rfl, rfl⟩ | ⟨rfl, rfl⟩ <;>
    simpa using hOther

/- No armor is in them. -/
theorem mem_of_mem_miscCodes
    (hCode : (k, code) ∈ miscCodes) :
    k ∈ [ring, amulet] := by
  simp only [miscCodes, List.mem_cons, Prod.mk.injEq,
    List.not_mem_nil, or_false] at hCode ⊢
  exact hCode.imp And.left And.left

end ItemClass

------------------------------------------------------------
-- Items Added to Classes
------------------------------------------------------------

namespace Catalog

variable {c : Catalog} {j k : ItemClass} {code : String}

/- Add items to their classes. -/
def addItems
    (c : Catalog)
    (items : List (ItemClass × String)) : Catalog :=
  items.foldl (fun c entry => c.addItem entry.1 entry.2) c

/- The codes that items have in a class. -/
def codesIn
    (k : ItemClass)
    (items : List (ItemClass × String)) : List String :=
  ((items.filter (·.1 = k)).map (·.2)).filter (· ≠ "")

/- A class with more codes: it has a set if it has any. -/
def extended
    (before : Option BaseSet)
    (codes : List String) : Option BaseSet :=
  if codes = [] then
    before
  else
    some ((before.getD BaseSet.empty).extend codes)

/- Codes that are added twice are added at once. -/
theorem extended_append
    (before : Option BaseSet)
    (a b : List String) :
    extended before (a ++ b) = extended (extended before a) b := by
  unfold extended
  by_cases hA : a = []
  · simp [hA]
  · by_cases hB : b = []
    · simp [hA, hB]
    · simp [hA, hB, BaseSet.extend_append]

/- The codes of an item and of those after it. -/
theorem codesIn_cons
    (k : ItemClass)
    (entry : ItemClass × String)
    (items : List (ItemClass × String)) :
    codesIn k (entry :: items) =
      codesIn k [entry] ++ codesIn k items := by
  unfold codesIn
  rw [← List.filter_append, ← List.map_append,
    ← List.filter_append, List.singleton_append]

/- An item is added to its class and no other. -/
theorem classBases_addItem
    (c : Catalog)
    (j k : ItemClass)
    (code : String) :
    (c.addItem j code).classBases k =
      extended (c.classBases k) (codesIn k [(j, code)]) := by
  unfold addItem codesIn
  by_cases hCode : code = ""
  · simp [hCode, extended, List.filter_cons]
  · rw [if_neg hCode]
    by_cases hSame : j = k
    · subst hSame
      simp [addClass, classBases, extended, hCode]
    · simp [addClass, classBases, extended, hSame,
        Assoc.find?_set_of_ne (Ne.symm hSame)]

/- A class has the codes of its items. -/
theorem classBases_addItems
    (c : Catalog)
    (items : List (ItemClass × String))
    (k : ItemClass) :
    (c.addItems items).classBases k =
      extended (c.classBases k) (codesIn k items) := by
  induction items generalizing c with
  | nil => rfl
  | cons entry items ih =>
      rw [codesIn_cons, extended_append,
        ← classBases_addItem c entry.1 k entry.2]
      exact ih (c.addItem entry.1 entry.2)

/- The rows of the table of armor as items of classes. -/
def armorItems
    (rows : List ItemTable.ItemRow) :
    List (ItemClass × String) :=
  rows.map fun row => (.ofArmorName row.name, row.code)

/- The rows of the other table that have a class. -/
def miscItems
    (rows : List ItemTable.ItemRow) :
    List (ItemClass × String) :=
  rows.filterMap fun row =>
    (ItemClass.ofMiscCode row.code).map (·, row.code)

/- Rows are added as the items that they are. -/
theorem addArmor_eq
    (c : Catalog)
    (rows : List ItemTable.ItemRow) :
    c.addArmor rows = c.addItems (armorItems rows) := by
  unfold addArmor addItems armorItems
  rw [List.foldl_map]

/- So are those of the other table. -/
theorem addMisc_eq
    (c : Catalog)
    (rows : List ItemTable.ItemRow) :
    c.addMisc rows = c.addItems (miscItems rows) := by
  unfold addMisc addItems miscItems
  rw [List.foldl_filterMap]
  congr
  funext c row
  cases ItemClass.ofMiscCode row.code <;> rfl

/- The class of runes gets their codes. -/
theorem classBases_addRuneClass
    (c : Catalog)
    (k : ItemClass) :
    c.addRuneClass.classBases k =
      extended (c.classBases k)
        (if k = .rune then runeCodes else []) := by
  unfold addRuneClass addClass classBases
  by_cases hRune : k = .rune
  · subst hRune
    rw [if_pos rfl]
    simp [extended, runeCodes]
  · rw [if_neg hRune, Assoc.find?_set_of_ne hRune]
    rfl

/- Assets are no members of classes. -/
theorem classBases_addAssets
    (c : Catalog)
    (entries : List (String × String))
    (k : ItemClass) :
    (c.addAssets entries).classBases k = c.classBases k := by
  unfold addAssets
  induction entries generalizing c with
  | nil => rfl
  | cons entry entries ih => exact ih _

/- The classes of a catalog are those of its two tables. -/
theorem classBases_of_load
    {d : Disk}
    {dir : Path}
    (hLoad : load d dir = .ok c) :
    ∃ armor misc,
      loadItems d (DataFile.armorTable dir) = .ok armor ∧
        loadIfFile loadItems d (DataFile.miscTable dir) =
          .ok misc ∧
        ∀ k,
          c.classBases k =
            extended none
              (codesIn k (armorItems armor) ++
                codesIn k (miscItems misc) ++
                if k = .rune then runeCodes else []) := by
  unfold load at hLoad
  rcases bind_eq_ok_iff.mp hLoad with ⟨names, _, hLoad⟩
  rcases bind_eq_ok_iff.mp hLoad with ⟨runes, _, hLoad⟩
  rcases bind_eq_ok_iff.mp hLoad with ⟨armor, hArmor, hLoad⟩
  rcases bind_eq_ok_iff.mp hLoad with ⟨misc, hMisc, hLoad⟩
  rcases bind_eq_ok_iff.mp hLoad with ⟨entries, _, hDone⟩
  cases hDone
  refine ⟨armor, misc, hArmor, hMisc, ?_⟩
  intro k
  rw [classBases_addAssets, classBases_addRuneClass, addMisc_eq,
    classBases_addItems, addArmor_eq, classBases_addItems,
    extended_append, extended_append]
  rfl

------------------------------------------------------------
-- Items of Tables
------------------------------------------------------------

variable {d : Disk} {dir p : Path}
variable {header : List String} {table : List (List String)}
variable {items : List ItemTable.ItemRow}

/- Whether a file holds a table. -/
def TableAt
    (d : Disk)
    (p : Path)
    (table : List (List String)) : Prop :=
  ∃ bytes : ByteArray,
    d.read p = .ok bytes ∧
      ItemTable.Stands bytes.data.toList table

/- A file holds one table only. -/
theorem TableAt.unique
    {other : List (List String)}
    (hTable : TableAt d p table)
    (hOther : TableAt d p other) :
    table = other := by
  rcases hTable with ⟨bytes, hRead, hStands⟩
  rcases hOther with ⟨more, hMore, hOtherStands⟩
  cases hRead.symm.trans hMore
  exact hStands.unique hOtherStands

/- Items are loaded from a file with a table of them. -/
theorem loadItems_eq_ok_iff :
    loadItems d p = .ok items ↔
      ∃ header table,
        TableAt d p (header :: table) ∧
          "name" ∈ header ∧ "code" ∈ header ∧
          items = table.map (ItemTable.itemUnder header) := by
  have hItems :
      loadItems d p = .ok items ↔
        ∃ bytes : ByteArray,
          d.read p = .ok bytes ∧
            ItemTable.read bytes.data.toList = .ok items := by
    unfold loadItems
    cases d.read p with
    | error e => simp
    | ok bytes =>
        dsimp only
        split <;> rename_i hRead <;> simp [hRead]
  rw [hItems]
  simp only [ItemTable.read_eq_ok_iff, TableAt]
  constructor
  · rintro ⟨bytes, hRead, header, table, hStands, hColumns⟩
    exact ⟨header, table, ⟨bytes, hRead, hStands⟩, hColumns⟩
  · rintro ⟨header, table, ⟨bytes, hRead, hStands⟩, hColumns⟩
    exact ⟨bytes, hRead, header, table, hStands, hColumns⟩

/-
  The codes of the armor in a class, row by row.  A row
  without a code does not count.
-/
def armorCodes
    (header : List String)
    (table : List (List String))
    (k : ItemClass) : List String :=
  ((table.filter fun row =>
      ItemClass.FirstHit
        (ItemTable.fieldUnder header "name" row)
        armorWords k).map
    (ItemTable.fieldUnder header "code")).filter (· ≠ "")

/- Whether the table of other items is there with a code. -/
def HasMiscCode
    (d : Disk)
    (dir : Path)
    (code : String) : Prop :=
  ∃ header table,
    TableAt d (DataFile.miscTable dir) (header :: table) ∧
      ∃ row ∈ table,
        ItemTable.fieldUnder header "code" row = code

/- The codes of the armor in a class are those of its items. -/
theorem codesIn_armorItems
    (k : ItemClass)
    (header : List String)
    (table : List (List String)) :
    codesIn k
        (armorItems (table.map (ItemTable.itemUnder header))) =
      armorCodes header table k := by
  unfold codesIn armorItems armorCodes
  rw [List.map_map, List.filter_map (l := table), List.map_map]
  simp only [Function.comp_def, ItemTable.itemUnder,
    ItemClass.ofArmorName_eq_iff]

/- No armor has a code among the rings, amulets and runes. -/
theorem codesIn_armorItems_eq_nil
    (hKind : k ∈ [ItemClass.ring, .amulet, .rune])
    (items : List ItemTable.ItemRow) :
    codesIn k (armorItems items) = [] := by
  have hNone :
      (armorItems items).filter (·.1 = k) = [] := by
    rw [List.filter_eq_nil_iff]
    intro entry hMem
    rcases List.mem_map.mp hMem with ⟨row, _, rfl⟩
    rw [decide_eq_true_eq]
    rintro rfl
    exact ItemClass.ofArmorName_notMem row.name hKind
  rw [codesIn, hNone]
  rfl

/- The codes of other items in a class. -/
theorem mem_codesIn_miscItems_iff :
    code ∈ codesIn k (miscItems items) ↔
      (k, code) ∈ ItemClass.miscCodes ∧
        ∃ row ∈ items, row.code = code := by
  simp only [codesIn, miscItems, List.mem_filter,
    List.mem_map, List.mem_filterMap, decide_eq_true_eq,
    Option.map_eq_some_iff,
    ItemClass.ofMiscCode_eq_some_iff]
  constructor
  · rintro ⟨⟨_, ⟨⟨row, hRow, j, hKind, rfl⟩, rfl⟩, rfl⟩, _⟩
    exact ⟨hKind, row, hRow, rfl⟩
  · rintro ⟨hKind, row, hRow, rfl⟩
    refine
      ⟨⟨_, ⟨⟨row, hRow, k, hKind, rfl⟩, rfl⟩, rfl⟩, ?_⟩
    intro hEmpty
    rw [hEmpty] at hKind
    simp [ItemClass.miscCodes] at hKind

/- No other item has a code in a class of armor. -/
theorem codesIn_miscItems_eq_nil
    (hKind : k ∉ [ItemClass.ring, .amulet])
    (items : List ItemTable.ItemRow) :
    codesIn k (miscItems items) = [] := by
  rw [List.eq_nil_iff_forall_not_mem]
  intro code hCode
  have hPair := (mem_codesIn_miscItems_iff.mp hCode).1
  exact hKind (ItemClass.mem_of_mem_miscCodes hPair)

/- A ring or an amulet has its code from a row, and once. -/
theorem eraseDups_codesIn_miscItems
    (hCode : (k, code) ∈ ItemClass.miscCodes)
    (hRow : ∃ row ∈ items, row.code = code) :
    codesIn k (miscItems items) ≠ [] ∧
      (codesIn k (miscItems items)).eraseDups = [code] := by
  have hMem : code ∈ codesIn k (miscItems items) :=
    mem_codesIn_miscItems_iff.mpr ⟨hCode, hRow⟩
  have hSome := List.ne_nil_of_mem hMem
  refine ⟨hSome, eraseDups_eq_singleton hSome ?_⟩
  intro other hOther
  exact
    ItemClass.eq_of_mem_miscCodes hCode
      (mem_codesIn_miscItems_iff.mp hOther).1

/- Without such a row the class has no code. -/
theorem codesIn_miscItems_of_not_exists
    (hCode : (k, code) ∈ ItemClass.miscCodes)
    (hNone : ¬ ∃ row ∈ items, row.code = code) :
    codesIn k (miscItems items) = [] := by
  rw [List.eq_nil_iff_forall_not_mem]
  intro other hOther
  rcases mem_codesIn_miscItems_iff.mp hOther with
    ⟨hPair, hRow⟩
  rw [ItemClass.eq_of_mem_miscCodes hCode hPair] at hRow
  exact hNone hRow

/- Other items with a code are loaded if they are there. -/
theorem hasMiscCode_iff
    (hMisc :
      loadIfFile loadItems d (DataFile.miscTable dir) =
        .ok items) :
    HasMiscCode d dir code ↔
      ∃ row ∈ items, row.code = code := by
  unfold loadIfFile at hMisc
  split at hMisc
  · rcases loadItems_eq_ok_iff.mp hMisc with
      ⟨header, table, hTable, _, _, rfl⟩
    simp only [List.mem_map, exists_exists_and_eq_and]
    constructor
    · rintro ⟨other, more, hOther, hRow⟩
      cases hTable.unique hOther
      exact hRow
    · exact fun hRow => ⟨header, table, hTable, hRow⟩
  · rename_i hNone
    cases hMisc
    constructor
    · rintro ⟨header, table, ⟨bytes, hRead, _⟩, _⟩
      exact absurd (Disk.hasFile_iff.mpr ⟨bytes, hRead⟩) hNone
    · rintro ⟨row, hRow, _⟩
      cases hRow

------------------------------------------------------------
-- Loaded Classes
------------------------------------------------------------

/- The members of a class with codes and nothing before. -/
theorem toList_extended (codes : List String) :
    (extended none codes).map (·.toList) =
      if codes = [] then none else some codes.eraseDups := by
  unfold extended
  split
  · rfl
  · exact congrArg some (BaseSet.toList_ofList codes)

/-
  What is to be known of the classes of a catalog, given the
  table of armor: the members of each class, in their order.
-/
structure HasClasses
    (c : Catalog)
    (d : Disk)
    (dir : Path)
    (header : List String)
    (table : List (List String)) : Prop where
  armor :
    ∀ k ∈
        [ItemClass.helmet, .chest, .shield, .gloves, .boots,
          .belt, .unknown],
      (c.classBases k).map (·.toList) =
        if armorCodes header table k = [] then
          none
        else
          some (armorCodes header table k).eraseDups
  misc :
    ∀ k code,
      (k, code) ∈ [(ItemClass.ring, "rin"), (.amulet, "amu")] →
        (HasMiscCode d dir code →
            (c.classBases k).map (·.toList) = some [code]) ∧
          (¬ HasMiscCode d dir code → c.classBases k = none)
  rune :
    (c.classBases .rune).map (·.toList) =
      some
        ((List.range' 1 33).map fun n =>
          String.ofList
            ['r', Nat.digitChar (n / 10),
              Nat.digitChar (n % 10)])

/- The classes of a loaded catalog are those of the tables. -/
theorem hasClasses_of_load
    (hLoad : load d dir = .ok c)
    (hArmor :
      TableAt d (DataFile.armorTable dir) (header :: table)) :
    HasClasses c d dir header table := by
  rcases classBases_of_load hLoad with
    ⟨armor, misc, hItems, hMisc, hClasses⟩
  rcases loadItems_eq_ok_iff.mp hItems with
    ⟨other, more, hOther, _, _, rfl⟩
  cases hArmor.unique hOther
  constructor
  · intro k hKind
    have hOthers : k ∉ [ItemClass.ring, .amulet] ∧ k ≠ .rune := by
      revert k
      decide
    rw [hClasses, codesIn_armorItems,
      codesIn_miscItems_eq_nil hOthers.1, if_neg hOthers.2,
      List.append_nil, List.append_nil]
    exact toList_extended _
  · intro k code hCode
    have hOthers :
        ∀ j ∈ [ItemClass.ring, .amulet],
          j ∈ [ItemClass.ring, .amulet, .rune] ∧ j ≠ .rune := by
      decide
    have hKind := hOthers k (ItemClass.mem_of_mem_miscCodes hCode)
    rw [hasMiscCode_iff hMisc, hClasses,
      codesIn_armorItems_eq_nil hKind.1, if_neg hKind.2,
      List.append_nil, List.nil_append]
    constructor
    · intro hRow
      rcases eraseDups_codesIn_miscItems hCode hRow with
        ⟨hSome, hOnce⟩
      rw [toList_extended, if_neg hSome, hOnce]
    · intro hNone
      rw [codesIn_miscItems_of_not_exists hCode hNone]
      rfl
  · rw [hClasses, codesIn_armorItems_eq_nil (by simp),
      codesIn_miscItems_eq_nil (by simp), if_pos rfl]
    exact (toList_extended runeCodes).trans (by decide +kernel)

/-
  A table of armor with a byte order mark, all three ends of
  rows, an empty line and a short row.
-/
def helmetText : String :=
  "\uFEFFtype\tname\tcode\r\n" ++
    "helm\tWar Cap\tskp\n\n" ++
    "helm\t\"Cap\" Belt\tcap\r" ++
    "belt\n" ++
    "helm\tCap\tskp"

/- Its header and its rows. -/
def helmetTable : List (List String) :=
  [ ["type", "name", "code"],
    ["helm", "War Cap", "skp"],
    ["helm", "\"Cap\" Belt", "cap"],
    ["belt"],
    ["helm", "Cap", "skp"] ]

/- A directory with the table, a ring and no names. -/
def helmetTree : Disk :=
  ⟨[(["local"], .folder), (["local", "lng"], .folder),
    (["local", "lng", "strings"], .folder),
    (["local", "lng", "strings", "item-names.json"],
      .file "[]".toUTF8),
    (["local", "lng", "strings", "item-runes.json"],
      .file "[]".toUTF8),
    (["global"], .folder), (["global", "excel"], .folder),
    (["global", "excel", "armor.txt"],
      .file helmetText.toUTF8),
    (["global", "excel", "misc.txt"],
      .file "name\tcode\nRing\trin\n".toUTF8)], []⟩

/- The catalog of the directory. -/
def helmetCatalog : Catalog :=
  { names := []
    runes := []
    classes :=
      [ (.helmet, BaseSet.ofList ["skp", "cap"]),
        (.ring, BaseSet.ofList ["rin"]),
        (.rune, BaseSet.ofList runeCodes) ]
    assets := [] }

/- A name with words of two classes is in the first one. -/
theorem hasClasses_of_load_helmets :
    load helmetTree ⟨["."]⟩ = .ok helmetCatalog ∧
      TableAt helmetTree (DataFile.armorTable ⟨["."]⟩)
        helmetTable ∧
      armorCodes helmetTable.head! helmetTable.tail .helmet =
        ["skp", "cap", "skp"] ∧
      HasClasses helmetCatalog helmetTree ⟨["."]⟩
        helmetTable.head! helmetTable.tail := by
  have hLoad :
      load helmetTree ⟨["."]⟩ = .ok helmetCatalog := by
    decide +kernel
  have hTable :
      TableAt helmetTree (DataFile.armorTable ⟨["."]⟩)
        helmetTable := by
    refine ⟨helmetText.toUTF8, by decide, ?_⟩
    rw [ItemTable.stands_iff]
    decide +kernel
  exact
    ⟨hLoad, hTable, by decide +kernel,
      hasClasses_of_load hLoad hTable⟩

end Catalog

end LootFilter
