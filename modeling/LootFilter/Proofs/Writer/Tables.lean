import LootFilter.Proofs.Filter.Conflicts
import LootFilter.Proofs.Writer.Rows
import Mathlib.Data.List.Nodup

/-
  What rules make of the string tables.

  Each rename of a list of edits goes to the table of its kind
  of key, which is read once, before its first rename.  So the
  staged rows are those of the file with the renames of that
  kind done in order, and for rules without common targets no
  row is renamed twice.

  Main declarations:
    * `Staging.table`
    * `Writer.table_performAll`
    * `Rule.Renames`
    * `TableRenamed`
    * `Writer.tables_of_writeAll`
-/

namespace LootFilter

open Json (Value)

------------------------------------------------------------
-- Tables by Kind
------------------------------------------------------------

/- The staged rows of the table of runes or of other names. -/
def Staging.table
    (s : Staging)
    (rune : Bool) : Option (List Value) :=
  if rune then s.runes else s.names

/- The file of the table of runes or of other names. -/
def DataFile.stringTable (dir : Path) (rune : Bool) : Path :=
  if rune then itemRunes dir else itemNames dir

/- The rename in an edit, if its key is of a kind. -/
def Edit.rename?
    (rune : Bool) : Edit → Option (String × Rule)
| .rename base rule =>
    if isRuneKey base = rune then some (base, rule) else none
| .addEffect _ _ => none

namespace Writer

variable {disk : Disk} {w next : Writer}

/- A document is read as its file has it. -/
theorem readJson_eq_ok_iff
    {α : Type}
    {read : Json.Document → Except Json.Fault α}
    {path : Path}
    {a : α} :
    readJson read disk path = .ok a ↔
      DataFile.readJson read disk path = .ok a := by
  unfold readJson
  cases hRead : DataFile.readJson read disk path with
  | ok b => simp
  | error e => cases e <;> simp

------------------------------------------------------------
-- One Edit
------------------------------------------------------------

/- A rename is staged in the table of its kind of key. -/
theorem performRename_eq_ok
    {base : String}
    {rule : Rule}
    (hPerform : performRename disk w base rule = (next, none)) :
    next.dir = w.dir ∧
      ∀ rune,
        if isRuneKey base = rune then
          ∃ rows,
            loadTable disk (DataFile.stringTable w.dir rune)
                (w.staging.table rune) = .ok rows ∧
              next.staging.table rune =
                some (renameFirst rows (base, rule))
        else
          next.staging.table rune = w.staging.table rune := by
  unfold performRename inRuneTable at hPerform
  dsimp only at hPerform
  cases hKind : isRuneKey base with
  | true =>
      rw [if_pos hKind] at hPerform
      cases hLoad :
          loadTable disk (DataFile.itemRunes w.dir)
            w.staging.runes with
      | error e => simp [hLoad] at hPerform
      | ok rows =>
          rw [hLoad] at hPerform
          cases hPerform
          refine ⟨rfl, ?_⟩
          rintro (_ | _)
          · rfl
          · exact ⟨rows, hLoad, rfl⟩
  | false =>
      rw [if_neg (by simp [hKind])] at hPerform
      cases hLoad :
          loadTable disk (DataFile.itemNames w.dir)
            w.staging.names with
      | error e => simp [hLoad] at hPerform
      | ok rows =>
          rw [hLoad] at hPerform
          cases hPerform
          refine ⟨rfl, ?_⟩
          rintro (_ | _)
          · exact ⟨rows, hLoad, rfl⟩
          · rfl

/- An effect leaves the tables alone. -/
theorem performEffect_tables
    (disk : Disk)
    (w : Writer)
    (base : String)
    (effect : VisualEffect) :
    (performEffect disk w base effect).1.dir = w.dir ∧
      ∀ rune,
        (performEffect disk w base effect).1.staging.table
            rune = w.staging.table rune := by
  unfold performEffect
  split
  · exact ⟨rfl, fun _ => rfl⟩
  · dsimp only
    split
    · exact ⟨rfl, fun _ => rfl⟩
    · split <;> exact ⟨rfl, fun _ => rfl⟩

/- An edit changes a table only if it renames there. -/
theorem perform_eq_ok
    {edit : Edit}
    (hPerform : perform disk w edit = (next, none))
    (rune : Bool) :
    next.dir = w.dir ∧
      match edit.rename? rune with
      | none =>
          next.staging.table rune = w.staging.table rune
      | some rename =>
          ∃ rows,
            loadTable disk (DataFile.stringTable w.dir rune)
                (w.staging.table rune) = .ok rows ∧
              next.staging.table rune =
                some (renameFirst rows rename) := by
  cases edit with
  | rename base rule =>
      rcases performRename_eq_ok hPerform with
        ⟨hDir, hTables⟩
      refine ⟨hDir, ?_⟩
      have hTable := hTables rune
      unfold Edit.rename?
      split at hTable
      · rename_i hKind
        simpa only [hKind, if_true] using hTable
      · rename_i hKind
        simpa only [hKind, if_false] using hTable
  | addEffect base effect =>
      have hEffect :=
        performEffect_tables disk w base effect
      rw [perform] at hPerform
      rw [hPerform] at hEffect
      exact ⟨hEffect.1, hEffect.2 rune⟩

------------------------------------------------------------
-- Many Edits
------------------------------------------------------------

/-
  A table is staged once something is to be renamed in it, and
  then has all the renames of its kind.
-/
theorem table_performAll
    {edits : List Edit}
    (hPerform : performAll disk w edits = (next, none))
    (rune : Bool) :
    if edits.filterMap (Edit.rename? rune) = [] then
      next.staging.table rune = w.staging.table rune
    else
      ∃ rows,
        loadTable disk (DataFile.stringTable w.dir rune)
            (w.staging.table rune) = .ok rows ∧
          next.staging.table rune =
            some
              (renameAll
                (edits.filterMap (Edit.rename? rune)) rows) := by
  induction edits generalizing w with
  | nil =>
      cases hPerform
      rfl
  | cons edit edits ih =>
      unfold performAll at hPerform
      cases hFirst : perform disk w edit with
      | mk middle failure =>
          rw [hFirst] at hPerform
          cases failure with
          | some e => cases hPerform
          | none =>
              have hRest := ih hPerform
              rcases perform_eq_ok hFirst rune with
                ⟨hDir, hTable⟩
              cases hRename : edit.rename? rune with
              | none =>
                  rw [hRename] at hTable
                  rw [List.filterMap_cons_none hRename]
                  rw [hDir, hTable] at hRest
                  exact hRest
              | some rename =>
                  rw [hRename] at hTable
                  rcases hTable with ⟨rows, hLoad, hStaged⟩
                  rw [List.filterMap_cons_some hRename,
                    if_neg (List.cons_ne_nil _ _)]
                  refine ⟨rows, hLoad, ?_⟩
                  rw [hStaged] at hRest
                  split at hRest
                  · rename_i hNone
                    rw [hNone]
                    exact hRest
                  · rcases hRest with
                      ⟨again, hAgain, hEnd⟩
                    cases hAgain
                    exact hEnd

end Writer

------------------------------------------------------------
-- Rules
------------------------------------------------------------

/- Whether a rule gives a base type a new name. -/
def Rule.Renames (rule : Rule) (base : String) : Prop :=
  rule.changesNames = true ∧ base ∈ rule.targets

/- The renames of a rule in one of the tables. -/
theorem rename?_edits
    (rule : Rule)
    (rune : Bool) :
    rule.edits.filterMap (Edit.rename? rune) =
      if rule.changesNames then
        (rule.targets.filter (isRuneKey · = rune)).map
          fun base => (base, rule)
      else
        [] := by
  have hEffects : ∀ base,
      (rule.vfx.map (Edit.addEffect base)).filterMap
        (Edit.rename? rune) = [] := by
    intro base
    simp [List.filterMap_map, Function.comp_def,
      Edit.rename?]
  unfold Rule.edits
  rw [List.filterMap_flatMap]
  simp only [List.filterMap_append, hEffects,
    List.append_nil]
  cases hChanges : rule.changesNames with
  | false => simp
  | true =>
      induction rule.targets with
      | nil => rfl
      | cons base bases ih =>
          by_cases hKind : isRuneKey base = rune
          · simp_all [Edit.rename?]
          · simp_all [Edit.rename?]

/- The renames of rules in one of the tables. -/
theorem mem_renames_iff
    {rules : List Rule}
    {rune : Bool}
    {base : String}
    {rule : Rule} :
    (base, rule) ∈
        (rules.flatMap Rule.edits).filterMap
          (Edit.rename? rune) ↔
      rule ∈ rules ∧ rule.Renames base ∧
        isRuneKey base = rune := by
  rw [List.filterMap_flatMap, List.mem_flatMap]
  constructor
  · rintro ⟨other, hRule, hMem⟩
    rw [rename?_edits] at hMem
    split at hMem
    · rename_i hChanges
      rcases List.mem_map.mp hMem with
        ⟨target, hTarget, hEq⟩
      cases hEq
      rw [List.mem_filter] at hTarget
      exact
        ⟨hRule, ⟨hChanges, hTarget.1⟩,
          by simpa using hTarget.2⟩
    · cases hMem
  · rintro ⟨hRule, ⟨hChanges, hTarget⟩, hKind⟩
    refine ⟨rule, hRule, ?_⟩
    rw [rename?_edits, if_pos hChanges]
    apply List.mem_map.mpr
    exact
      ⟨base, List.mem_filter.mpr ⟨hTarget, by simpa⟩, rfl⟩

/- Rules without common targets rename no base type twice. -/
theorem nodup_renames
    {rules : List Rule}
    (hDisjoint : DisjointTargets rules)
    (rune : Bool) :
    (((rules.flatMap Rule.edits).filterMap
      (Edit.rename? rune)).map Prod.fst).Nodup := by
  induction rules with
  | nil => exact List.nodup_nil
  | cons rule rules ih =>
      rcases List.pairwise_cons.mp hDisjoint with
        ⟨hApart, hRest⟩
      rw [List.flatMap_cons, List.filterMap_append,
        List.map_append]
      apply List.Nodup.append ?_ (ih hRest)
      · intro name hHere hThere
        rcases List.mem_map.mp hHere with
          ⟨⟨base, first⟩, hFirst, hEq⟩
        rcases List.mem_map.mp hThere with
          ⟨⟨other, second⟩, hSecond, hOther⟩
        have hSame : other = base := hOther.trans hEq.symm
        subst hSame
        have hOne :
            (other, first) ∈
              ([rule].flatMap Rule.edits).filterMap
                (Edit.rename? rune) := by
          rw [List.flatMap_singleton]
          exact hFirst
        rcases mem_renames_iff.mp hOne with
          ⟨hRule, hHead, _⟩
        rcases mem_renames_iff.mp hSecond with
          ⟨hOtherRule, hTail, _⟩
        rw [List.mem_singleton] at hRule
        subst hRule
        exact hApart second hOtherRule other hHead.2 hTail.2
      · rw [rename?_edits]
        split
        · rw [List.map_map]
          simpa [Function.comp_def] using
            rule.nodup_targets.filter _
        · exact List.nodup_nil

------------------------------------------------------------
-- Staged Tables
------------------------------------------------------------

/-
  Members of an object before and after a name is given a
  value: in place, or behind all others if the name is new.
-/
def SetsMember
    (name : String)
    (a : Value)
    (members next : List (String × Value)) : Prop :=
  (∃ front old back,
    members = front ++ (name, old) :: back ∧
      name ∉ Assoc.keys front ∧
      next = front ++ (name, a) :: back) ∨
    (name ∉ Assoc.keys members ∧
      next = members ++ [(name, a)])

/-
  The staged rows of a table of one kind of key, next to those
  of its file.  The first row with a key of that kind that a
  rule renames has a new name in its text; all others are the
  same.
-/
structure TableRenamed
    (rules : List Rule)
    (rune : Bool)
    (rows staged : List Value) : Prop where
  length : staged.length = rows.length
  renamed :
    ∀ rule ∈ rules, ∀ base i,
      rule.Renames base →
        isRuneKey base = rune →
          FirstAt (rowKeys rows) i base →
            ∃ members next old name,
              rows[i]? = some (.object members) ∧
                staged[i]? = some (.object next) ∧
                old =
                  ((Value.object members).memberText?
                    "enUS").getD "" ∧
                rule.displayName old = some name ∧
                SetsMember "enUS" (.text name) members next
  same :
    ∀ i,
      (∀ rule ∈ rules, ∀ base,
        rule.Renames base →
          isRuneKey base = rune →
            ¬ FirstAt (rowKeys rows) i base) →
        staged[i]? = rows[i]?

/- The renames of rules without common targets do that. -/
theorem tableRenamed_renameAll
    {rules : List Rule}
    (hDisjoint : DisjointTargets rules)
    (rune : Bool)
    (rows : List Value) :
    TableRenamed rules rune rows
      (renameAll
        ((rules.flatMap Rule.edits).filterMap
          (Edit.rename? rune)) rows) where
  length := length_renameAll _ rows
  renamed := by
    intro rule hRule base i hRenames hKind hFirst
    have hMem :=
      mem_renames_iff.mpr ⟨hRule, hRenames, hKind⟩
    have hStaged :=
      getElem?_renameAll_of_mem
        (nodup_renames hDisjoint rune) hMem hFirst
    have hKey := hFirst.1
    rw [rowKeys, List.getElem?_map, Option.map_eq_some_iff]
      at hKey
    rcases hKey with ⟨row, hRow, hText⟩
    rcases exists_members_of_memberText? hText with
      ⟨members, rfl⟩
    rcases renameRow_object hRenames.1 members with
      ⟨name, hName, hRenamed⟩
    rw [hRow, Option.map_some, hRenamed] at hStaged
    exact
      ⟨members, _, _, name, hRow, hStaged, rfl, hName,
        Assoc.set_cases _ _ _⟩
  same := by
    intro i hNone
    apply getElem?_renameAll_of_forall
    rintro ⟨base, rule⟩ hMem
    rcases mem_renames_iff.mp hMem with
      ⟨hRule, hRenames, hKind⟩
    exact hNone rule hRule base hRenames hKind

namespace Writer

/-
  After rules are staged in a new writer, a table that has a
  rename is that of its file with all its renames done.
-/
theorem staged_of_writeAll
    {disk : Disk}
    {dir : Path}
    {catalog : Catalog}
    {rules : List Rule}
    {w : Writer}
    (hWrite :
      (new dir catalog).writeAll disk rules = (w, none))
    (rune : Bool) :
    if (rules.flatMap Rule.edits).filterMap
        (Edit.rename? rune) = [] then
      w.staging.table rune = none
    else
      ∃ rows,
        DataFile.readJson Json.Document.values disk
            (DataFile.stringTable dir rune) = .ok rows ∧
          w.staging.table rune =
            some
              (renameAll
                ((rules.flatMap Rule.edits).filterMap
                  (Edit.rename? rune)) rows) := by
  have hNew : (new dir catalog).staging.table rune = none := by
    cases rune <;> rfl
  have hTable := table_performAll hWrite rune
  rw [hNew] at hTable
  split at hTable
  · rename_i hNone
    rwa [if_pos hNone]
  · rename_i hSome
    rw [if_neg hSome]
    rcases hTable with ⟨rows, hLoad, hStaged⟩
    exact ⟨rows, readJson_eq_ok_iff.mp hLoad, hStaged⟩

/-
  After rules without common targets are staged in a new
  writer, each table is staged if and only if one of its base
  types is renamed, and has exactly those renames.
-/
theorem tables_of_writeAll
    {disk : Disk}
    {dir : Path}
    {catalog : Catalog}
    {rules : List Rule}
    {w : Writer}
    (hDisjoint : DisjointTargets rules)
    (hWrite :
      (new dir catalog).writeAll disk rules = (w, none))
    (rune : Bool) :
    ((w.staging.table rune).isSome ↔
        ∃ rule ∈ rules, ∃ base,
          rule.Renames base ∧ isRuneKey base = rune) ∧
      ∀ staged,
        w.staging.table rune = some staged →
          ∃ rows,
            DataFile.readJson Json.Document.values disk
                (DataFile.stringTable dir rune) = .ok rows ∧
              TableRenamed rules rune rows staged := by
  have hTable := staged_of_writeAll hWrite rune
  have hAny :
      (rules.flatMap Rule.edits).filterMap
            (Edit.rename? rune) ≠ [] ↔
        ∃ rule ∈ rules, ∃ base,
          rule.Renames base ∧ isRuneKey base = rune := by
    constructor
    · intro hSome
      rcases List.exists_mem_of_ne_nil _ hSome with
        ⟨⟨base, rule⟩, hMem⟩
      rcases mem_renames_iff.mp hMem with ⟨hRule, hRename⟩
      exact ⟨rule, hRule, base, hRename⟩
    · rintro ⟨rule, hRule, base, hRename⟩
      exact
        List.ne_nil_of_mem
          (mem_renames_iff.mpr ⟨hRule, hRename⟩)
  rw [← hAny]
  split at hTable
  · rename_i hNone
    simp [hTable, hNone]
  · rename_i hSome
    rcases hTable with ⟨rows, hRead, hStaged⟩
    rw [hStaged]
    refine ⟨by simpa using hSome, ?_⟩
    intro staged hEq
    cases hEq
    exact
      ⟨rows, hRead, tableRenamed_renameAll hDisjoint rune rows⟩

/- A data directory with a table in which a key is repeated. -/
def repeatedTree : Disk :=
  let rows :=
    "[1, \x7b\"Key\":\"cap\"\x7d, \x7b\"Key\":\"cap\"\x7d]"
  ⟨[(["local"], .folder), (["local", "lng"], .folder),
    (["local", "lng", "strings"], .folder),
    (["local", "lng", "strings", "item-names.json"],
      .file rows.toUTF8)], []⟩

/- Two rules without common targets. -/
def repeatedRules : List Rule :=
  [ ⟨1, .hideItem, some (BaseSet.empty.insert "cap"), none,
      []⟩,
    ⟨2, .showItem, some (BaseSet.empty.insert "r01"), none,
      []⟩ ]

/- The table of names is staged for them, and no other. -/
theorem tables_of_writeAll_repeated :
    ∃ w : Writer,
      (new ⟨["."]⟩ Catalog.empty).writeAll repeatedTree
          repeatedRules = (w, none) ∧
        w.staging.table true = none ∧
        ∃ staged rows,
          w.staging.table false = some staged ∧
            DataFile.readJson Json.Document.values repeatedTree
                (DataFile.stringTable ⟨["."]⟩ false) =
              .ok rows ∧
            TableRenamed repeatedRules false rows staged := by
  have hDisjoint : DisjointTargets repeatedRules := by
    unfold DisjointTargets
    decide +kernel
  have hFailure :
      ((new ⟨["."]⟩ Catalog.empty).writeAll repeatedTree
        repeatedRules).2 = none := by
    decide +kernel
  obtain ⟨w, hWrite⟩ :
      ∃ w,
        (new ⟨["."]⟩ Catalog.empty).writeAll repeatedTree
          repeatedRules = (w, none) :=
    ⟨_, Prod.ext rfl hFailure⟩
  have hNames := tables_of_writeAll hDisjoint hWrite false
  have hRunes := tables_of_writeAll hDisjoint hWrite true
  have hNamed :
      ∃ rule ∈ repeatedRules, ∃ base,
        rule.Renames base ∧ isRuneKey base = false :=
    ⟨_, List.mem_cons_self, "cap", ⟨rfl, by decide⟩,
      by decide⟩
  have hNoRune :
      ∀ rule ∈ repeatedRules, rule.changesNames = true →
        ∀ base ∈ rule.targets, isRuneKey base ≠ true := by
    decide +kernel
  refine ⟨w, hWrite, ?_, ?_⟩
  · rw [← Option.not_isSome_iff_eq_none, hRunes.1]
    rintro ⟨rule, hRule, base, hRenames, hKind⟩
    exact hNoRune rule hRule hRenames.1 base hRenames.2 hKind
  · rcases Option.isSome_iff_exists.mp (hNames.1.mpr hNamed)
      with ⟨staged, hStaged⟩
    rcases hNames.2 staged hStaged with
      ⟨rows, hRows, hTable⟩
    exact ⟨staged, rows, hStaged, hRows, hTable⟩

end Writer

end LootFilter
