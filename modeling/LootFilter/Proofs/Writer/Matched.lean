import LootFilter.Proofs.Evaluation.Meaning
import LootFilter.Proofs.Filter.Pipeline
import LootFilter.Proofs.Writer.Finished

/-
  What is matched is what is renamed.

  Blocks match the names of rows and select keys.  The writer
  looks for a key again: in the table for keys of its kind, and
  there in the first row that has it.  So these rows get the
  names that blocks give to their keys, and no others do.

  Main declarations:
    * `Rule.renameEntry`
    * `Instruction.mem_targets_iff_names`
    * `Catalog.Renames`
    * `Catalog.HasEntries`
    * `Writer.entries_finish`
-/

namespace LootFilter

open Json (Document Value)

------------------------------------------------------------
-- Renamed Entries
------------------------------------------------------------

/- An entry with the name that a rule gives it, if any. -/
def Rule.renameEntry (rule : Rule) (entry : Entry) : Entry :=
  { entry with
    name := (rule.displayName entry.name).getD entry.name }

namespace Entry

/- The key of an entry is that of its row. -/
theorem map_key_ofValue? (row : Value) :
    (ofValue? row).map (·.key) = row.memberText? "Key" := by
  unfold ofValue?
  cases row.memberText? "Key" <;> rfl

/- Renaming a row renames its entry. -/
theorem ofValue?_renameRow (rule : Rule) (row : Value) :
    ofValue? (rule.renameRow row) =
      (ofValue? row).map rule.renameEntry := by
  cases hKey : row.memberText? "Key" with
  | none => simp [ofValue?, hKey]
  | some key =>
      rcases exists_members_of_memberText? hKey with
        ⟨members, rfl⟩
      have hRenamed :
          (rule.renameRow (.object members)).memberText?
              "enUS" =
            ((rule.displayName
              (((Value.object members).memberText?
                "enUS").getD "")).map some).getD
              ((Value.object members).memberText? "enUS") := by
        unfold Rule.renameRow
        dsimp only
        split
        · rename_i hNone
          rw [hNone]
          rfl
        · rename_i name hName
          rw [hName]
          simp [Value.setMember, Value.memberText?,
            Value.member?, Value.members?, Value.text?]
      simp only [ofValue?, memberText?_key_renameRow, hKey,
        Option.map_some, hRenamed, Rule.renameEntry]
      cases rule.displayName
        (((Value.object members).memberText? "enUS").getD
          "") <;> rfl

end Entry

/- The keys of rows are those of their entries. -/
theorem rowKeys_eq_of_entries
    {rows : List Value}
    {entries : List Entry}
    (hEntries : rows.map Entry.ofValue? = entries.map some) :
    rowKeys rows = entries.map fun entry => some entry.key := by
  have hKeys :=
    congrArg (List.map (Option.map (·.key))) hEntries
  simpa [rowKeys, Entry.map_key_ofValue?, Function.comp_def]
    using hKeys

------------------------------------------------------------
-- Blocks Without Classes
------------------------------------------------------------

/- A block that lists no class targets what it names. -/
theorem Instruction.mem_targets_iff_names
    {c : Catalog}
    {block : Instruction}
    {rule : Rule}
    (hEvaluate : block.evaluate c = .ok rule)
    (hNoClass : ¬ block.Has .itemClass)
    {base : String} :
    base ∈ rule.targets ↔ block.Names c base := by
  have hMeans : Means c block rule := by
    rcases exists_describes_of_evaluate hEvaluate with
      ⟨s, hDescribes, rfl⟩
    exact means_of_describes hDescribes
  -- Without a property that selects, there are no targets.
  by_cases hNone : rule.baseTypes = none
  · have hNoName := (hMeans.unselective.mp hNone).1
    have hTargets : rule.targets = [] := by
      simp [Rule.targets, hNone]
    rw [hTargets]
    constructor
    · intro hMem
      cases hMem
    · rintro ⟨p, hP, op, fragment, hFragment, _⟩
      refine absurd ⟨p, hP, ?_⟩ hNoName
      unfold Property.fragments at hFragment
      split at hFragment
      · assumption
      · cases hFragment
  · have hName : block.Has .baseType := by
      by_contra hNoName
      exact hNone (hMeans.unselective.mpr ⟨hNoName, hNoClass⟩)
    rw [hMeans.target hNone]
    simp [hName, hNoClass]

------------------------------------------------------------
-- Tables After Finishing
------------------------------------------------------------

namespace Catalog

/-
  Whether a block gives a row of a table its name: it changes
  names and selects the key of the row, the table is that for
  keys of this kind, and no earlier row has the key.
-/
structure Renames
    (c : Catalog)
    (rune : Bool)
    (i : Nat)
    (entry : Entry)
    (block : Instruction)
    (rule : Rule) : Prop where
  resolves : block.evaluate c = .ok rule
  changes : rule.changesNames = true
  names : block.Names c entry.key
  kind : isRuneKey entry.key = rune
  first :
    FirstAt ((c.table rune).map fun row => some row.key) i
      entry.key

/-
  Whether the file of a table has entries: they are loaded
  from it, or those of the rows that it was written with.
-/
def HasEntries
    (disk : Disk)
    (path : Path)
    (entries : List Entry) : Prop :=
  loadEntries disk path = .ok entries ∨
    ∃ l rows,
      disk.locate path = .ok l ∧
        disk.node? l =
          some (.file (DataFile.encodeJson (.array rows))) ∧
        rows.map Entry.ofValue? = entries.map some

end Catalog

namespace Writer

variable {disk : Disk} {dir : Path} {c : Catalog}
variable {blocks : List Instruction} {rules : List Rule}
variable {device : Device}

/- Blocks without classes rename the keys that they name. -/
theorem mem_renames_iff_names
    (hNoClass : ∀ block ∈ blocks, ¬ block.Has .itemClass)
    (hResolves : c.Resolves blocks rules)
    {rune : Bool}
    {base : String}
    {rule : Rule} :
    (base, rule) ∈
        (rules.flatMap Rule.edits).filterMap
          (Edit.rename? rune) ↔
      ∃ block ∈ blocks,
        block.evaluate c = .ok rule ∧
          rule.changesNames = true ∧
          block.Names c base ∧ isRuneKey base = rune := by
  rw [mem_renames_iff]
  constructor
  · rintro ⟨hRule, ⟨hChanges, hTarget⟩, hKind⟩
    rcases exists_mem_of_forall₂ hResolves.flip hRule with
      ⟨block, hBlock, hEvaluate⟩
    have hNames :=
      (Instruction.mem_targets_iff_names hEvaluate
        (hNoClass block hBlock)).mp hTarget
    exact ⟨block, hBlock, hEvaluate, hChanges, hNames, hKind⟩
  · rintro ⟨block, hBlock, hEvaluate, hChanges, hNames, hKind⟩
    rcases exists_mem_of_forall₂ hResolves hBlock with
      ⟨other, hRule, hOther⟩
    cases hEvaluate.symm.trans hOther
    have hTarget :=
      (Instruction.mem_targets_iff_names hEvaluate
        (hNoClass block hBlock)).mpr hNames
    exact ⟨hRule, ⟨hChanges, hTarget⟩, hKind⟩

/-
  Entries after renames of keys: the first one with a renamed
  key is renamed, all others are the same.
-/
structure EntriesRenamed
    (renames : List (String × Rule))
    (entries after : List Entry) : Prop where
  length : after.length = entries.length
  renamed :
    ∀ rename ∈ renames, ∀ i : Nat,
      FirstAt (entries.map fun row => some row.key) i
          rename.1 →
        after[i]? = entries[i]?.map rename.2.renameEntry
  same :
    ∀ i : Nat,
      (∀ rename ∈ renames,
        ¬ FirstAt (entries.map fun row => some row.key) i
          rename.1) →
        after[i]? = entries[i]?

/- Rows after renames of different keys have such entries. -/
theorem exists_entries_renameAll
    {renames : List (String × Rule)}
    (hDistinct : (renames.map Prod.fst).Nodup)
    {rows : List Value}
    {entries : List Entry}
    (hEntries : rows.map Entry.ofValue? = entries.map some) :
    ∃ after : List Entry,
      (renameAll renames rows).map Entry.ofValue? =
          after.map some ∧
        EntriesRenamed renames entries after := by
  have hKeys := rowKeys_eq_of_entries hEntries
  have hOld :
      ∀ i : Nat,
        rows[i]?.map Entry.ofValue? = entries[i]?.map some := by
    intro i
    rw [← List.getElem?_map, hEntries, List.getElem?_map]
  have hRenamed :
      ∀ i : Nat, ∀ rename ∈ renames,
        FirstAt (rowKeys rows) i rename.1 →
          (renameAll renames rows)[i]?.map Entry.ofValue? =
            (entries[i]?.map rename.2.renameEntry).map some := by
    intro i rename hMem hFirst
    have hMapped :=
      congrArg (Option.map (Option.map rename.2.renameEntry))
        (hOld i)
    rw [getElem?_renameAll_of_mem hDistinct hMem hFirst]
    simpa [Function.comp_def, Entry.ofValue?_renameRow] using
      hMapped
  have hSame :
      ∀ i : Nat,
        (∀ rename ∈ renames,
          ¬ FirstAt (rowKeys rows) i rename.1) →
          (renameAll renames rows)[i]?.map Entry.ofValue? =
            entries[i]?.map some := by
    intro i hNone
    rw [getElem?_renameAll_of_forall hNone]
    exact hOld i
  have hSome :
      ∀ entry ∈ (renameAll renames rows).map Entry.ofValue?,
        ∃ found, entry = some found := by
    intro entry hMem
    rcases List.mem_iff_getElem?.mp hMem with ⟨i, hAt⟩
    rw [List.getElem?_map] at hAt
    by_cases hAny :
        ∃ rename ∈ renames, FirstAt (rowKeys rows) i rename.1
    · rcases hAny with ⟨rename, hRename, hFirst⟩
      rw [hRenamed i rename hRename hFirst] at hAt
      rcases Option.map_eq_some_iff.mp hAt with ⟨_, _, rfl⟩
      exact ⟨_, rfl⟩
    · rw [hSame i (fun rename hRename hFirst =>
        hAny ⟨rename, hRename, hFirst⟩)] at hAt
      rcases Option.map_eq_some_iff.mp hAt with ⟨_, _, rfl⟩
      exact ⟨_, rfl⟩
  rcases exists_forall₂_iff.mpr hSome with ⟨after, hAll⟩
  have hAfter :
      (renameAll renames rows).map Entry.ofValue? =
        after.map some := by
    rw [← List.forall₂_eq_eq_eq]
    exact List.forall₂_map_right_iff.mpr hAll
  have hAt :
      ∀ i : Nat,
        (renameAll renames rows)[i]?.map Entry.ofValue? =
          after[i]?.map some := by
    intro i
    rw [← List.getElem?_map, hAfter, List.getElem?_map]
  have hInjective :=
    Option.map_injective (Option.some_injective Entry)
  refine ⟨after, hAfter, ?_, ?_, ?_⟩
  · have hLength := congrArg List.length hAfter
    have hBefore := congrArg List.length hEntries
    simp only [List.length_map, length_renameAll] at hLength hBefore
    rw [← hLength, hBefore]
  · intro rename hMem i hFirst
    rw [← hKeys] at hFirst
    apply hInjective
    rw [← hAt, hRenamed i rename hMem hFirst]
  · intro i hNone
    rw [← hKeys] at hNone
    apply hInjective
    rw [← hAt, hSame i hNone]

/-
  Once rules without common targets are staged and written,
  each table has its entries with the renames of its kind.
-/
theorem exists_hasEntries_finish
    (hLoad : Catalog.load disk dir = .ok c)
    (hObjects :
      ∀ rune,
        DataFile.HasObjects disk
          (DataFile.stringTable dir rune))
    (hDisjoint : DisjointTargets rules)
    {w : Writer}
    (hWrite : (new dir c).writeAll disk rules = (w, none))
    (hDone : (w.finish device disk).failure = none)
    (rune : Bool) :
    ∃ after : List Entry,
      Catalog.HasEntries (w.finish device disk).disk
          (DataFile.stringTable dir rune) after ∧
        EntriesRenamed
          ((rules.flatMap Rule.edits).filterMap
            (Edit.rename? rune))
          (c.table rune) after := by
  have hEntries := Catalog.loadEntries_stringTable hLoad rune
  rcases DataFile.readJson_eq_ok_iff.mp
      (Catalog.loadJson_eq_ok_iff.mp hEntries) with
    ⟨l, bytes, hLocate, hFile, hHolds⟩
  rcases node?_finish hLoad hWrite hDone hLocate with
    ⟨hPlace, hNode⟩
  have hStaged := staged_of_writeAll hWrite rune
  split at hStaged
  · rename_i hNone
    rw [hStaged] at hNode
    refine ⟨c.table rune, Or.inl ?_, rfl, ?_, ?_⟩
    · apply Catalog.loadJson_eq_ok_iff.mpr
      exact
        DataFile.readJson_eq_ok_iff.mpr
          ⟨l, bytes, hPlace, hNode.trans hFile, hHolds⟩
    · intro rename hMem
      rw [hNone] at hMem
      cases hMem
    · intro i _
      rfl
  · rcases hStaged with ⟨rows, hRows, hStaged⟩
    rw [hStaged] at hNode
    rcases exists_entries_renameAll
        (nodup_renames hDisjoint rune)
        (DataFile.map_ofValue?_of_loadEntries (hObjects rune)
          hEntries hRows) with
      ⟨after, hAfter, hRenamed⟩
    exact
      ⟨after, Or.inr ⟨l, _, hPlace, hNode, hAfter⟩, hRenamed⟩

/-
  What is matched is what is renamed.  If all goes well with a
  filter that lists no classes, each row to which a block gives
  a name has the name that the block makes of its own, and all
  other rows are the same.
-/
theorem entries_finish
    {source : String}
    {filter : Filter}
    {w : Writer}
    (hLoad : Catalog.load disk dir = .ok c)
    (hObjects :
      ∀ rune,
        DataFile.HasObjects disk
          (DataFile.stringTable dir rune))
    (hSource : Instruction.ofSource source = .ok blocks)
    (hNoClass : ∀ block ∈ blocks, ¬ block.Has .itemClass)
    (hFilter : Filter.ofSource c source = .ok filter)
    (hWrite :
      (new dir c).writeAll disk filter.rules = (w, none))
    (hDone : (w.finish device disk).failure = none)
    (rune : Bool) :
    ∃ after : List Entry,
      Catalog.HasEntries (w.finish device disk).disk
          (DataFile.stringTable dir rune) after ∧
        after.length = (c.table rune).length ∧
        ∀ (i : Nat) (entry : Entry),
          (c.table rune)[i]? = some entry →
            (∀ block ∈ blocks, ∀ rule,
              c.Renames rune i entry block rule →
                ∃ name,
                  rule.displayName entry.name = some name ∧
                    after[i]? = some ⟨entry.key, name⟩) ∧
              ((∀ block ∈ blocks, ∀ rule,
                ¬ c.Renames rune i entry block rule) →
                  after[i]? = some entry) := by
  rcases Filter.ofSource_eq_ok hFilter with
    ⟨others, hOthers, hResolves, hDisjoint⟩
  cases hSource.symm.trans hOthers
  rcases exists_hasEntries_finish hLoad hObjects hDisjoint
      hWrite hDone rune with
    ⟨after, hHas, hRenamed⟩
  refine ⟨after, hHas, hRenamed.length, ?_⟩
  intro i entry hEntry
  constructor
  · intro block hBlock rule hRenames
    have hMem :=
      (mem_renames_iff_names hNoClass hResolves).mpr
        ⟨block, hBlock, hRenames.resolves, hRenames.changes,
          hRenames.names, hRenames.kind⟩
    have hAfter := hRenamed.renamed _ hMem i hRenames.first
    rw [hEntry, Option.map_some] at hAfter
    have hName := hRenames.changes
    rw [← rule.isSome_displayName entry.name,
      Option.isSome_iff_exists] at hName
    rcases hName with ⟨name, hName⟩
    refine ⟨name, hName, ?_⟩
    rw [hAfter, Rule.renameEntry, hName, Option.getD_some]
  · intro hNone
    rw [hRenamed.same i, hEntry]
    rintro ⟨base, rule⟩ hMem hFirst
    rcases (mem_renames_iff_names hNoClass hResolves).mp
        hMem with
      ⟨block, hBlock, hEvaluate, hChanges, hNames, hKind⟩
    have hKey : base = entry.key := by
      have hAt := hFirst.1
      rw [List.getElem?_map, hEntry] at hAt
      cases hAt
      rfl
    subst hKey
    exact
      hNone block hBlock rule
        ⟨hEvaluate, hChanges, hNames, hKind, hFirst⟩

/- The table of names of a small data directory. -/
def capNames : String :=
  "[\x7b\"Key\":\"cap\",\"enUS\":\"A\"\x7d," ++
    "\x7b\"Key\":\"cap\",\"enUS\":\"Cap\"\x7d," ++
    "\x7b\"Key\":\"r01\",\"enUS\":\"Red Cap\"\x7d]"

/- Its table of runes. -/
def capRunes : String :=
  "[\x7b\"Key\":\"r01\",\"enUS\":\"El\"\x7d]"

/- The directory: one key is repeated, one is in both tables. -/
def capTree : Disk :=
  ⟨[(["local"], .folder), (["local", "lng"], .folder),
    (["local", "lng", "strings"], .folder),
    (["local", "lng", "strings", "item-names.json"],
      .file capNames.toUTF8),
    (["local", "lng", "strings", "item-runes.json"],
      .file capRunes.toUTF8),
    (["global"], .folder), (["global", "excel"], .folder),
    (["global", "excel", "armor.txt"],
      .file "name\tcode\n".toUTF8)], []⟩

/- The catalog of the directory. -/
def capCatalog : Catalog :=
  { names :=
      [⟨"cap", "A"⟩, ⟨"cap", "Cap"⟩, ⟨"r01", "Red Cap"⟩]
    runes := [⟨"r01", "El"⟩]
    classes := [(.rune, BaseSet.ofList runeCodes)]
    assets := [] }

/- It is loaded from the directory, whose rows are objects. -/
theorem load_capTree :
    Catalog.load capTree ⟨["."]⟩ = .ok capCatalog ∧
      ∀ rune,
        DataFile.HasObjects capTree
          (DataFile.stringTable ⟨["."]⟩ rune) := by
  have hText :
      ∀ rune : Bool,
        DataFile.readText capTree
            (DataFile.stringTable ⟨["."]⟩ rune) =
          .ok (if rune then capRunes else capNames) := by
    decide
  have hRows :
      ∀ rune : Bool,
        ∀ row ∈
          (Document.ofTokens
            (Json.Token.lex
              (if rune then capRunes
                else capNames).toList)).1.items,
          row.IsObject := by
    decide +kernel
  refine ⟨by decide +kernel, ?_⟩
  intro rune text hRead
  cases (hText rune).symm.trans hRead
  exact hRows rune

/- A filter that hides what is called a cap. -/
def hideSource : String :=
  "Hide\n    BaseType Cap\n"

/- Its block. -/
def hideBlock : Instruction :=
  ⟨1, .hideItem, [⟨.baseType, "Cap"⟩]⟩

/- Its rule: a row of each key matches. -/
def hideRule : Rule :=
  ⟨1, .hideItem, some (BaseSet.ofList ["cap", "r01"]), none,
    []⟩

/- They are read from the source. -/
theorem ofSource_hideSource :
    Instruction.ofSource hideSource = .ok [hideBlock] ∧
      ¬ hideBlock.Has .itemClass ∧
      hideBlock.properties.flatMap (·.fragments) =
        [(none, "Cap".toList)] ∧
      Filter.ofSource capCatalog hideSource =
        .ok ⟨[hideRule]⟩ :=
  ⟨rfl, by simp [Instruction.Has, hideBlock],
    by decide +kernel, by decide +kernel⟩

/- The writer of the rule. -/
def hideWriter : Writer :=
  ((new ⟨["."]⟩ capCatalog).writeAll capTree [hideRule]).1

/- Staging and writing the rule succeed. -/
theorem finish_hideWriter :
    (new ⟨["."]⟩ capCatalog).writeAll capTree [hideRule] =
        (hideWriter, none) ∧
      (hideWriter.finish .sound capTree).failure = none :=
  ⟨Prod.ext rfl (by decide +kernel), by decide +kernel⟩

/- The first row with the key of a cap is hidden, no other. -/
theorem entries_finish_hidden :
    ∃ after : List Entry,
      Catalog.HasEntries
          (hideWriter.finish .sound capTree).disk
          (DataFile.stringTable ⟨["."]⟩ false) after ∧
        after[0]? = some ⟨"cap", ""⟩ ∧
        after[1]? = some ⟨"cap", "Cap"⟩ := by
  rcases ofSource_hideSource with
    ⟨hSource, hNoClass, _, hFilter⟩
  have hNoClasses :
      ∀ block ∈ [hideBlock], ¬ block.Has .itemClass := by
    simpa using hNoClass
  rcases entries_finish load_capTree.1 load_capTree.2 hSource
      hNoClasses hFilter finish_hideWriter.1
      finish_hideWriter.2 false with
    ⟨after, hHas, _, hRows⟩
  have hNames : hideBlock.Names capCatalog "cap" :=
    ⟨⟨.baseType, "Cap"⟩, by decide, none, "Cap".toList,
      by decide +kernel, ⟨"cap", "Cap"⟩, by decide, rfl,
      Or.inr ⟨rfl, List.infix_refl _⟩⟩
  have hFirst :
      capCatalog.Renames false 0 ⟨"cap", "A"⟩ hideBlock
        hideRule :=
    ⟨by decide +kernel, rfl, hNames, by decide, by decide⟩
  rcases (hRows 0 ⟨"cap", "A"⟩ rfl).1 hideBlock (by simp)
      hideRule hFirst with
    ⟨name, hName, hAfter⟩
  cases hName
  refine ⟨after, hHas, hAfter, ?_⟩
  apply (hRows 1 ⟨"cap", "Cap"⟩ rfl).2
  intro block _ rule hSecond
  exact absurd hSecond.first (by decide)

/- The value of a row with a key and a name. -/
def rowValue (key name : String) : Value :=
  .object [("Key", .text key), ("enUS", .text name)]

/-
  Not every row that is matched is renamed, and not every row
  that is renamed is matched: the second row with a key is
  passed over for the first, and a key of a rune among the
  names is looked for among the runes.
-/
theorem entries_finish_mixed :
    Catalog.load capTree ⟨["."]⟩ = .ok capCatalog ∧
      (∀ rune,
        DataFile.HasObjects capTree
          (DataFile.stringTable ⟨["."]⟩ rune)) ∧
      Instruction.ofSource hideSource = .ok [hideBlock] ∧
      ¬ hideBlock.Has .itemClass ∧
      hideBlock.properties.flatMap (·.fragments) =
        [(none, "Cap".toList)] ∧
      Filter.ofSource capCatalog hideSource =
        .ok ⟨[hideRule]⟩ ∧
      (∀ name, hideRule.displayName name = some "") ∧
      (new ⟨["."]⟩ capCatalog).writeAll capTree [hideRule] =
        (hideWriter, none) ∧
      (hideWriter.finish .sound capTree).failure = none ∧
      (hideWriter.finish .sound capTree).disk.node?
          ["local", "lng", "strings", "item-names.json"] =
        some (.file (DataFile.encodeJson
          (.array
            [ rowValue "cap" "", rowValue "cap" "Cap",
              rowValue "r01" "Red Cap" ]))) ∧
      (hideWriter.finish .sound capTree).disk.node?
          ["local", "lng", "strings", "item-runes.json"] =
        some (.file (DataFile.encodeJson
          (.array [rowValue "r01" ""]))) := by
  rcases ofSource_hideSource with
    ⟨hSource, hNoClass, hFragments, hFilter⟩
  exact
    ⟨load_capTree.1, load_capTree.2, hSource, hNoClass,
      hFragments, hFilter, fun _ => rfl, finish_hideWriter.1,
      finish_hideWriter.2, by decide +kernel,
      by decide +kernel⟩

end Writer

end LootFilter
