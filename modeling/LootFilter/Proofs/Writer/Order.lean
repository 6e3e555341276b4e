import LootFilter.Proofs.Spelling
import LootFilter.Proofs.Writer.Uses
import Mathlib.Data.List.Perm.Basic

/-
  When the order of rules does not matter.

  An edit can be staged exactly if it can be staged by itself,
  whatever was staged before: the tables and the descriptors
  are those of the files, and effects do not hinder each other.
  So rules without common targets can be staged in any order,
  and only the order of new entities in a descriptor differs.

  This needs descriptors to be found under every spelling that
  the rules use.  A spelling that is too long for the system
  serves only after a shorter one was used.

  Main declarations:
    * `renameAll_eq_of_perm`
    * `ReadAlike`
    * `Writer.performAll_eq_none_iff`
    * `Writer.SpelledAlike`
    * `Writer.SameButOrder`
    * `Writer.writeAll_perm`
-/

namespace LootFilter

open Json (Document Value)

------------------------------------------------------------
-- Renames
------------------------------------------------------------

/- Renames of different keys may be done in any order. -/
theorem renameAll_eq_of_perm
    {renames others : List (String × Rule)}
    (hDistinct : (renames.map Prod.fst).Nodup)
    (hPerm : renames.Perm others)
    (rows : List Value) :
    renameAll renames rows = renameAll others rows := by
  have hOthers : (others.map Prod.fst).Nodup :=
    (hPerm.map Prod.fst).nodup_iff.mp hDistinct
  apply List.ext_getElem?
  intro i
  by_cases hNone :
      ∀ rename ∈ renames, ¬ FirstAt (rowKeys rows) i rename.1
  · have hNoOther :
        ∀ rename ∈ others,
          ¬ FirstAt (rowKeys rows) i rename.1 :=
      fun rename hMem => hNone rename (hPerm.mem_iff.mpr hMem)
    rw [getElem?_renameAll_of_forall hNone,
      getElem?_renameAll_of_forall hNoOther]
  · simp only [not_forall, not_not] at hNone
    rcases hNone with ⟨⟨base, rule⟩, hMem, hFirst⟩
    rw [getElem?_renameAll_of_mem hDistinct hMem hFirst,
      getElem?_renameAll_of_mem hOthers
        (hPerm.mem_iff.mp hMem) hFirst]

------------------------------------------------------------
-- Edits by Themselves
------------------------------------------------------------

/- Whether uses of one descriptor find the same document. -/
def ReadAlike (uses : List Use) : Prop :=
  ∀ u ∈ uses, ∀ v ∈ uses, u.key = v.key → u.doc? = v.doc?

namespace Writer

variable {disk : Disk} {dir : Path} {catalog : Catalog}
variable {w next : Writer} {edits done : List Edit}
variable {edit : Edit}

/- A rename succeeds if its table can be loaded. -/
theorem performRename_eq_none_iff
    {base : String}
    {rule : Rule} :
    (performRename disk w base rule).2 = none ↔
      ∃ rows,
        loadTable disk
            (DataFile.stringTable w.dir (isRuneKey base))
            (w.staging.table (isRuneKey base)) = .ok rows := by
  unfold performRename inRuneTable DataFile.stringTable
    Staging.table
  dsimp only
  cases isRuneKey base with
  | true =>
      simp only [if_true]
      cases loadTable disk (DataFile.itemRunes w.dir)
          w.staging.runes <;> simp
  | false =>
      simp only [Bool.false_eq_true, if_false]
      cases loadTable disk (DataFile.itemNames w.dir)
          w.staging.names <;> simp

/- An effect needs a descriptor that it can be put on. -/
theorem performEffect_eq_none_iff
    {base : String}
    {effect : VisualEffect} :
    (performEffect disk w base effect).2 = none ↔
      ∃ name,
        w.catalog.asset? base = some name ∧
          ∃ a,
            loadAsset disk w (DataFile.asset w.dir name) =
                .ok a ∧
              ∃ doc, effect.apply a.doc = .ok doc := by
  rcases performEffect_cases disk w base effect with
    ⟨hAsset, hPerform⟩ | ⟨name, path, hAsset, rfl, hUse⟩
  · rw [hPerform, hAsset]
    simp
  · rcases hUse with
      ⟨e, hLoad, hPerform⟩ |
        ⟨a, fault, hLoad, hApply, hPerform⟩ |
        ⟨a, doc, hLoad, hApply, hPerform⟩
    · rw [hPerform, hAsset]
      simp [hLoad]
    · rw [hPerform, hAsset]
      simp [hLoad, hApply]
    · rw [hPerform, hAsset]
      simp [hLoad, hApply]

/-
  If all uses of a descriptor find the same document, effects
  can be put on it exactly if they can on this document.
-/
theorem exists_loadAsset_iff
    {uses : List Use}
    (hStaged : StagedBy uses w.staging.assets)
    (u : Use)
    (hSame : ∀ v ∈ uses, v.key = u.key → v.doc? = u.doc?) :
    (∃ a,
        loadAsset u.disk w u.path = .ok a ∧
          ∃ doc, u.effect.apply a.doc = .ok doc) ↔
      ∃ doc,
        u.doc? = some doc ∧
          ∃ result, u.effect.apply doc = .ok result := by
  unfold loadAsset
  cases hFind :
      Assoc.find? u.path.components w.staging.assets with
  | some b =>
      rcases hStaged.descriptor _ b hFind with
        ⟨before, first, after, doc, rfl, hKey, _, _, hDoc,
          hApply⟩
      have hFirst := hSame first (by simp) hKey
      rw [← hFirst, hDoc]
      simpa using
        VisualEffect.exists_apply_iff_of_applyAll hApply
  | none =>
      simp only [Use.doc?_eq_some_iff, bind_eq_ok_iff,
        readJson_eq_ok_iff]
      constructor
      · rintro ⟨a, ⟨doc, hRead, hDone⟩, hApply⟩
        cases hDone
        exact ⟨doc, hRead, hApply⟩
      · rintro ⟨doc, hRead, hApply⟩
        exact ⟨⟨u.path, doc⟩, ⟨doc, hRead, rfl⟩, hApply⟩

/- Edits succeed if the last one does after all others. -/
theorem performAll_concat_eq_none_iff :
    (performAll disk w (done ++ [edit])).2 = none ↔
      ∃ middle,
        performAll disk w done = (middle, none) ∧
          (perform disk middle edit).2 = none := by
  induction done generalizing w with
  | nil =>
      rw [List.nil_append, performAll]
      cases hPerform : perform disk w edit with
      | mk next failure =>
          cases failure <;> simp [performAll, hPerform]
  | cons first done ih =>
      rw [List.cons_append, performAll, performAll]
      cases perform disk w first with
      | mk next failure =>
          cases failure with
          | some e => simp
          | none => exact ih

/-
  An edit succeeds after others exactly if it does so in a new
  writer.
-/
theorem perform_eq_none_iff
    (hAlike :
      ReadAlike
        ((done ++ [edit]).filterMap
          (Edit.use? disk dir catalog none)))
    (hDone :
      performAll disk (new dir catalog) done = (w, none)) :
    (perform disk w edit).2 = none ↔
      (perform disk (new dir catalog) edit).2 = none := by
  have hTarget :=
    sameTarget_performAll disk (new dir catalog) done
  rw [hDone] at hTarget
  have hDir : w.dir = dir := hTarget.dir
  have hCatalog : w.catalog = catalog := hTarget.catalog
  cases edit with
  | rename base rule =>
      rw [perform, perform, performRename_eq_none_iff,
        performRename_eq_none_iff, hDir]
      have hTable := table_performAll hDone (isRuneKey base)
      split at hTable
      · rw [hTable]
        rfl
      · rcases hTable with ⟨rows, hLoad, hStaged⟩
        rw [hStaged]
        exact iff_of_true ⟨_, rfl⟩ ⟨rows, hLoad⟩
  | addEffect base effect =>
      rw [perform, perform, performEffect_eq_none_iff,
        performEffect_eq_none_iff, hDir, hCatalog]
      apply exists_congr
      intro name
      apply and_congr_right
      intro hAsset
      -- As a use, the edit has one document, before and after.
      have hStaged := stagedBy_of_performAll_new hDone
      let u : Use :=
        ⟨disk, DataFile.asset dir name, effect, none⟩
      rw [List.filterMap_append] at hAlike
      have hUse :
          Edit.use? disk dir catalog none
              (.addEffect base effect) = some u := by
        rw [Edit.use?, show catalog.asset? base = some name
          from hAsset]
        rfl
      have hLast :
          u ∈ [Edit.addEffect base effect].filterMap
            (Edit.use? disk dir catalog none) := by
        simp [hUse]
      have hAfter :=
        exists_loadAsset_iff hStaged u fun v hMem hKey =>
          hAlike v (List.mem_append_left _ hMem) u
            (List.mem_append_right _ hLast) hKey
      have hFirst :=
        exists_loadAsset_iff (w := new dir catalog) StagedBy.nil
          u (by simp)
      exact hAfter.trans hFirst.symm

/-
  Edits succeed one after the other exactly if each of them
  succeeds by itself.
-/
theorem performAll_eq_none_iff
    (hAlike :
      ReadAlike
        (edits.filterMap (Edit.use? disk dir catalog none))) :
    (performAll disk (new dir catalog) edits).2 = none ↔
      ∀ edit ∈ edits,
        (perform disk (new dir catalog) edit).2 = none := by
  induction edits using List.reverseRecOn with
  | nil => simp [performAll]
  | append_singleton done edit ih =>
      have hFewer :
          ReadAlike
            (done.filterMap
              (Edit.use? disk dir catalog none)) := by
        intro u hU v hV
        rw [List.filterMap_append] at hAlike
        exact
          hAlike u (List.mem_append_left _ hU) v
            (List.mem_append_left _ hV)
      rw [performAll_concat_eq_none_iff,
        List.forall_mem_append, List.forall_mem_singleton,
        ← ih hFewer]
      constructor
      · rintro ⟨middle, hDone, hLast⟩
        rw [hDone]
        exact ⟨rfl, (perform_eq_none_iff hAlike hDone).mp hLast⟩
      · rintro ⟨hDone, hLast⟩
        have hMiddle :
            performAll disk (new dir catalog) done =
              ((performAll disk (new dir catalog) done).1,
                none) :=
          Prod.ext rfl hDone
        exact
          ⟨_, hMiddle,
            (perform_eq_none_iff hAlike hMiddle).mpr hLast⟩

------------------------------------------------------------
-- Spellings
------------------------------------------------------------

/-
  The descriptors that the rules put effects on, by the paths
  that the rules use.
-/
def effectPaths
    (dir : Path)
    (catalog : Catalog)
    (rules : List Rule) : List Path :=
  rules.flatMap fun rule =>
    if rule.vfx = [] then
      []
    else
      (rule.targets.filterMap catalog.asset?).map
        (DataFile.asset dir)

/-
  Whether no descriptor has both a spelling that is too long
  for the system and one that is not.
-/
def SpelledAlike
    (dir : Path)
    (catalog : Catalog)
    (rules : List Rule) : Prop :=
  ∀ p ∈ effectPaths dir catalog rules,
    ∀ q ∈ effectPaths dir catalog rules,
      p.components = q.components → (p.IsLong ↔ q.IsLong)

instance
    (dir : Path)
    (catalog : Catalog)
    (rules : List Rule) :
    Decidable (SpelledAlike dir catalog rules) := by
  unfold SpelledAlike
  infer_instance

/- The uses of rules are of these descriptors. -/
theorem exists_of_mem_uses
    {rules : List Rule}
    {u : Use}
    (hMem :
      u ∈ (rules.flatMap Rule.edits).filterMap
        (Edit.use? disk dir catalog none)) :
    u.disk = disk ∧
      u.path ∈ effectPaths dir catalog rules ∧
      u.path.IsDocument := by
  rcases List.mem_filterMap.mp hMem with
    ⟨edit, hEdit, hUse⟩
  rcases List.mem_flatMap.mp hEdit with
    ⟨rule, hRule, hIn⟩
  cases edit with
  | rename base rule => cases hUse
  | addEffect base effect =>
      rcases Option.map_eq_some_iff.mp hUse with
        ⟨name, hAsset, rfl⟩
      refine ⟨rfl, ?_, DataFile.asset_isDocument dir name⟩
      rcases addEffect_mem_edits_iff.mp hIn with
        ⟨hTarget, hEffect⟩
      refine List.mem_flatMap.mpr ⟨rule, hRule, ?_⟩
      rw [if_neg (List.ne_nil_of_mem hEffect)]
      exact
        List.mem_map_of_mem
          (List.mem_filterMap.mpr ⟨base, hTarget, hAsset⟩)

/- Spelled so, a descriptor is found by all uses or none. -/
theorem SpelledAlike.readAlike
    {rules : List Rule}
    (hSpelled : SpelledAlike dir catalog rules)
    (disk : Disk) :
    ReadAlike
      ((rules.flatMap Rule.edits).filterMap
        (Edit.use? disk dir catalog none)) := by
  intro u hU v hV hKey
  rcases exists_of_mem_uses hU with ⟨hDiskU, hPathU, hDocU⟩
  rcases exists_of_mem_uses hV with ⟨hDiskV, hPathV, hDocV⟩
  have hLong := hSpelled u.path hPathU v.path hPathV hKey
  apply Option.ext
  intro doc
  rw [Use.doc?_eq_some_iff, Use.doc?_eq_some_iff,
    DataFile.readJson_eq_ok_iff, DataFile.readJson_eq_ok_iff,
    hDiskU, hDiskV]
  simp only [Disk.locate_eq_ok_iff_of_components hDocU hDocV
    hKey hLong]

------------------------------------------------------------
-- Rules
------------------------------------------------------------

/-
  Whether the same is staged but for the order of what was put
  behind the entities of a descriptor.
-/
structure SameButOrder
    (disk : Disk)
    (first second : Staging) : Prop where
  tables : ∀ rune, first.table rune = second.table rune
  keys :
    (Assoc.keys first.assets).Perm (Assoc.keys second.assets)
  documents :
    ∀ key a b,
      Assoc.find? key first.assets = some a →
        Assoc.find? key second.assets = some b →
          ∃ doc entities,
            DataFile.readJson Document.value disk a.path =
                .ok doc ∧
              VisualEffect.entities? doc = some entities ∧
              VisualEffect.AlikeButOrder entities a.doc b.doc

variable {rules others : List Rule}

/- Uses of the same descriptors stage the same, but for order. -/
theorem documents_of_perm
    {uses more : List Use}
    {first second : Assoc (List String) StagedAsset}
    (hAlike : ReadAlike uses)
    (hPerm : uses.Perm more)
    (hDone : ∀ u ∈ uses, u.disk = disk ∧ u.failure = none)
    (hFirst : StagedBy uses first)
    (hSecond : StagedBy more second) :
    (Assoc.keys first).Perm (Assoc.keys second) ∧
      ∀ key a b,
        Assoc.find? key first = some a →
          Assoc.find? key second = some b →
            ∃ doc entities,
              DataFile.readJson Document.value disk a.path =
                  .ok doc ∧
                VisualEffect.entities? doc = some entities ∧
                VisualEffect.AlikeButOrder entities a.doc
                  b.doc := by
  constructor
  · rw [List.perm_ext_iff_of_nodup hFirst.nodup_keys
      hSecond.nodup_keys]
    intro key
    simp only [hFirst.keys, hSecond.keys, mem_readKeys_iff,
      hPerm.mem_iff]
  · intro key a b hA hB
    rcases hFirst.descriptor key a hA with
      ⟨before, u, after, doc, hUses, hKey, _, hPath, hDoc,
        hApply⟩
    rcases hSecond.descriptor key b hB with
      ⟨front, v, back, other, hMore, hOtherKey, _, _, hOther,
        hOtherApply⟩
    have hU : u ∈ uses := by
      simp [hUses]
    have hV : v ∈ uses := by
      apply hPerm.mem_iff.mpr
      simp [hMore]
    have hSame :=
      hAlike u hU v hV (hKey.trans hOtherKey.symm)
    cases hDoc.symm.trans (hSame.trans hOther)
    have hEffects :
        (effectsOn key uses).Perm (effectsOn key more) :=
      (hPerm.filter _).map _
    have hOwn : u.effect ∈ effectsOn key uses := by
      apply List.mem_map_of_mem
      exact
        List.mem_filter.mpr
          ⟨hU, by simp [hKey, (hDone u hU).2]⟩
    have hRead := Use.doc?_eq_some_iff.mp hDoc
    rw [(hDone u hU).1, ← hPath] at hRead
    cases hEntities : VisualEffect.entities? doc with
    | none =>
        -- No effect can be put there, but the use did so.
        have hEach :=
          (VisualEffect.exists_applyAll_iff _ doc).mp
            ⟨_, hApply⟩
        rcases hEach u.effect hOwn with ⟨result, hResult⟩
        exact
          absurd hResult (VisualEffect.apply_ne_ok hEntities)
    | some entities =>
        exact
          ⟨doc, entities, hRead, hEntities,
            VisualEffect.alikeButOrder_of_perm hEffects
              hEntities hApply hOtherApply⟩

/- What rules stage whose uses are those of other rules. -/
theorem sameButOrder_of_writeAll
    {w v : Writer}
    (hDisjoint : DisjointTargets rules)
    (hPerm : rules.Perm others)
    (hSpelled : SpelledAlike dir catalog rules)
    (hFirst :
      (new dir catalog).writeAll disk rules = (w, none))
    (hSecond :
      (new dir catalog).writeAll disk others = (v, none)) :
    SameButOrder disk w.staging v.staging := by
  have hEdits :
      (rules.flatMap Rule.edits).Perm
        (others.flatMap Rule.edits) :=
    hPerm.flatMap_right _
  have hUses :=
    hEdits.filterMap (Edit.use? disk dir catalog none)
  have hDone :
      ∀ u ∈ (rules.flatMap Rule.edits).filterMap
          (Edit.use? disk dir catalog none),
        u.disk = disk ∧ u.failure = none := by
    intro u hMem
    rcases List.mem_filterMap.mp hMem with ⟨edit, _, hUse⟩
    cases edit with
    | rename base rule => cases hUse
    | addEffect base effect =>
        rcases Option.map_eq_some_iff.mp hUse with
          ⟨name, _, rfl⟩
        exact ⟨rfl, rfl⟩
  have hDocuments :=
    documents_of_perm (hSpelled.readAlike disk) hUses hDone
      (stagedBy_of_performAll_new hFirst)
      (stagedBy_of_performAll_new hSecond)
  refine ⟨?_, hDocuments.1, hDocuments.2⟩
  intro rune
  have hRenames := hEdits.filterMap (Edit.rename? rune)
  have hTable := staged_of_writeAll hFirst rune
  have hOther := staged_of_writeAll hSecond rune
  split at hTable
  · rename_i hNone
    rw [hNone] at hRenames
    rw [if_pos hRenames.nil_eq.symm] at hOther
    rw [hTable, hOther]
  · rename_i hSome
    have hMore :
        (others.flatMap Rule.edits).filterMap
          (Edit.rename? rune) ≠ [] := by
      intro hNone
      rw [hNone] at hRenames
      exact hSome hRenames.eq_nil
    rw [if_neg hMore] at hOther
    rcases hTable with ⟨rows, hRows, hRenamed⟩
    rcases hOther with ⟨found, hFound, hOtherRenamed⟩
    cases hRows.symm.trans hFound
    rw [hRenamed, hOtherRenamed,
      renameAll_eq_of_perm (nodup_renames hDisjoint rune)
        hRenames]

/-
  Rules without common targets succeed in one order exactly if
  they do in any other, and then the same is staged, but for
  the order of new entities.
-/
theorem writeAll_perm
    {disk : Disk}
    {dir : Path}
    {catalog : Catalog}
    {rules others : List Rule}
    (hDisjoint : DisjointTargets rules)
    (hPerm : rules.Perm others)
    (hSpelled : SpelledAlike dir catalog rules) :
    (((new dir catalog).writeAll disk rules).2 = none ↔
        ((new dir catalog).writeAll disk others).2 = none) ∧
      (((new dir catalog).writeAll disk rules).2 = none →
        SameButOrder disk
          ((new dir catalog).writeAll disk rules).1.staging
          ((new dir catalog).writeAll disk
            others).1.staging) := by
  have hAlike := hSpelled.readAlike disk
  have hEdits :
      (rules.flatMap Rule.edits).Perm
        (others.flatMap Rule.edits) :=
    hPerm.flatMap_right _
  have hOtherAlike :
      ReadAlike
        ((others.flatMap Rule.edits).filterMap
          (Edit.use? disk dir catalog none)) := by
    have hUses :=
      hEdits.filterMap (Edit.use? disk dir catalog none)
    intro u hU v hV
    exact
      hAlike u (hUses.mem_iff.mpr hU) v (hUses.mem_iff.mpr hV)
  have hSucceed :
      ((new dir catalog).writeAll disk rules).2 = none ↔
        ((new dir catalog).writeAll disk others).2 = none := by
    unfold writeAll
    rw [performAll_eq_none_iff hAlike,
      performAll_eq_none_iff hOtherAlike]
    simp only [hEdits.mem_iff]
  refine ⟨hSucceed, ?_⟩
  intro hFirst
  exact
    sameButOrder_of_writeAll hDisjoint hPerm hSpelled
      (Prod.ext rfl hFirst)
      (Prod.ext rfl (hSucceed.mp hFirst))

/- A data directory with the descriptor of one asset. -/
def sharedTree : Disk :=
  ⟨[(["hd"], .folder), (["hd", "items"], .folder),
    (["hd", "items", "h"], .folder),
    (["hd", "items", "h", "x.json"],
      .file "\x7b\"entities\":[]\x7d".toUTF8)], []⟩

/- Two base types with this asset, by different names. -/
def sharedCatalog (name : String) : Catalog :=
  (Catalog.empty.setAsset "a" "h/x").setAsset "b" name

/- A rule for each of them, with an effect each. -/
def sharedRules : List Rule :=
  [ ⟨1, .showItem, some (BaseSet.empty.insert "a"), none,
      [.glitter]⟩,
    ⟨2, .showItem, some (BaseSet.empty.insert "b"), none,
      [.flash]⟩ ]

/- The rules have no common targets. -/
theorem disjointTargets_sharedRules :
    DisjointTargets sharedRules := by
  unfold DisjointTargets
  decide +kernel

/- Both orders stage the descriptor, under either spelling. -/
theorem writeAll_perm_shared :
    ((new ⟨["."]⟩ (sharedCatalog "./h//x")).writeAll sharedTree
          sharedRules).2 = none ∧
      ((new ⟨["."]⟩ (sharedCatalog "./h//x")).writeAll
          sharedTree sharedRules.reverse).2 = none ∧
      SameButOrder sharedTree
        ((new ⟨["."]⟩ (sharedCatalog "./h//x")).writeAll
          sharedTree sharedRules).1.staging
        ((new ⟨["."]⟩ (sharedCatalog "./h//x")).writeAll
          sharedTree sharedRules.reverse).1.staging := by
  have hSpelled :
      SpelledAlike ⟨["."]⟩ (sharedCatalog "./h//x")
        sharedRules := by
    decide +kernel
  have hSuccess :
      ((new ⟨["."]⟩ (sharedCatalog "./h//x")).writeAll
        sharedTree sharedRules).2 = none := by
    decide +kernel
  rcases writeAll_perm disjointTargets_sharedRules
      (List.reverse_perm sharedRules).symm hSpelled with
    ⟨hOther, hSame⟩
  exact ⟨hSuccess, hOther.mp hSuccess, hSame hSuccess⟩

------------------------------------------------------------
-- Spellings That Are Too Long
------------------------------------------------------------

/- A name of the asset with many slashes. -/
def slashed (count : Nat) : String :=
  String.ofList ('h' :: List.replicate (count + 1) '/' ++ ['x'])

/- The path of its descriptor. -/
theorem asset_slashed (count : Nat) :
    DataFile.asset ⟨["."]⟩ (slashed count) =
      ⟨[".", "hd", "items", "h"] ++
        List.replicate count "" ++ ["x.json"]⟩ := by
  have hText :
      (slashed count ++ ".json").toList =
        ['h'] ++ '/' ::
          (List.replicate count '/' ++ "x.json".toList) := by
    simp [slashed, List.replicate_succ]
  have hName :
      Path.ofText (slashed count ++ ".json") =
        ⟨"h" :: List.replicate count "" ++ ["x.json"]⟩ := by
    have hLast :
        Text.splitAt '/' "x.json".toList =
          ["x.json".toList] := by
      decide
    rw [Path.ofText, hText,
      Text.splitAt_append_sep (by decide),
      Text.splitAt_replicate_append, hLast]
    simp
  rw [DataFile.asset, hName, Path.join,
    if_neg (by simp [Path.IsAbsolute])]
  simp [Path.below, Path.join, Path.IsAbsolute, Path.stem]

/- It has the components of the shortest such path. -/
theorem components_asset_slashed (count : Nat) :
    (DataFile.asset ⟨["."]⟩ (slashed count)).components =
      [".", "hd", "items", "h", "x.json"] := by
  rw [asset_slashed]
  simp [Path.components, List.filter_append, Path.isStep]

/- With enough slashes it is too long. -/
theorem isLong_asset_slashed
    {count : Nat}
    (hCount : 4077 ≤ count) :
    (DataFile.asset ⟨["."]⟩ (slashed count)).IsLong := by
  have hSize :=
    Disk.utf8ByteSize_text
      (p := DataFile.asset ⟨["."]⟩ (slashed count))
      (by simp [asset_slashed])
  have hFront :
      ([".", "hd", "items", "h"].map
        (·.utf8ByteSize + 1)).sum = 13 := by
    decide
  have hLast : "x.json".utf8ByteSize = 6 := by
    decide
  have hEmpty : "".utf8ByteSize = 0 := rfl
  rw [asset_slashed] at hSize ⊢
  simp only [List.map_append, List.sum_append] at hSize
  simp only [hFront, List.map_replicate, hEmpty,
    List.sum_replicate_nat, List.map_singleton,
    List.sum_singleton, hLast] at hSize
  unfold Path.IsLong Disk.maxPathBytes
  omega

/- The assets of the two base types. -/
theorem asset?_sharedCatalog (name : String) :
    (sharedCatalog name).asset? "a" = some "h/x" ∧
      (sharedCatalog name).asset? "b" = some name :=
  ⟨rfl, rfl⟩

/- A name that is too long finds nothing at first. -/
theorem failure_flash_slashed
    {count : Nat}
    (hCount : 4077 ≤ count) :
    (perform sharedTree
        (new ⟨["."]⟩ (sharedCatalog (slashed count)))
        (.addEffect "b" .flash)).2 ≠ none := by
  intro hDone
  rw [perform, performEffect_eq_none_iff] at hDone
  rcases hDone with ⟨name, hAsset, a, hLoad, _⟩
  have hName :
      (sharedCatalog (slashed count)).asset? "b" = some name :=
    hAsset
  rw [(asset?_sharedCatalog (slashed count)).2] at hName
  cases hName
  rcases loadAsset_eq_ok hLoad with hStaged | ⟨_, _, hRead⟩
  · cases hStaged
  · rcases DataFile.readJson_eq_ok_iff.mp hRead with
      ⟨l, _, hLocate, _⟩
    have hSpelled := (Disk.locate_eq_ok_iff.mp hLocate).1
    exact
      Nat.not_lt.mpr hSpelled.2.1 (isLong_asset_slashed hCount)

/- It finds the descriptor that the short name has staged. -/
theorem failure_flash_staged
    {count : Nat}
    (hShort :
      (performAll sharedTree
          (new ⟨["."]⟩ (sharedCatalog (slashed count)))
          ([.addEffect "a" .glitter] ++
            [.addEffect "a" .flash])).2 = none) :
    (performAll sharedTree
        (new ⟨["."]⟩ (sharedCatalog (slashed count)))
        ([.addEffect "a" .glitter] ++
          [.addEffect "b" .flash])).2 = none := by
  have hSame :
      (DataFile.asset ⟨["."]⟩ "h/x").components =
        (DataFile.asset ⟨["."]⟩ (slashed count)).components := by
    rw [components_asset_slashed]
    exact components_asset_slashed 0
  rcases performAll_concat_eq_none_iff.mp hShort with
    ⟨middle, hGlitter, hFlash⟩
  refine
    performAll_concat_eq_none_iff.mpr ⟨middle, hGlitter, ?_⟩
  have hTarget :=
    sameTarget_performAll sharedTree
      (new ⟨["."]⟩ (sharedCatalog (slashed count)))
      [.addEffect "a" .glitter]
  rw [hGlitter] at hTarget
  have hDir : middle.dir = ⟨["."]⟩ := hTarget.dir
  have hCatalog :
      middle.catalog = sharedCatalog (slashed count) :=
    hTarget.catalog
  have hStaged := stagedBy_of_performAll_new hGlitter
  rw [perform, performEffect_eq_none_iff, hDir, hCatalog]
    at hFlash ⊢
  rcases hFlash with ⟨name, hAsset, a, hLoad, hApply⟩
  rw [(asset?_sharedCatalog (slashed count)).1] at hAsset
  cases hAsset
  refine
    ⟨slashed count,
      (asset?_sharedCatalog (slashed count)).2, a, ?_, hApply⟩
  rcases loadAsset_eq_ok hLoad with hFound | ⟨hNew, _⟩
  · rw [hSame] at hFound
    unfold loadAsset
    rw [hFound]
  · have hKey :=
      hStaged.kept
        ⟨sharedTree, DataFile.asset ⟨["."]⟩ "h/x", .glitter,
          none⟩
        List.mem_cons_self rfl
    exact absurd hKey (Assoc.find?_eq_none_iff.mp hNew)

/-
  The order of rules can matter.  After a rule for the short
  name of an asset, one for a name that is too long finds the
  descriptor staged; before it, there is no such file.
-/
theorem writeAll_perm_slashed :
    DisjointTargets sharedRules ∧
      sharedRules.Perm sharedRules.reverse ∧
      ((new ⟨["."]⟩ (sharedCatalog (slashed 4077))).writeAll
          sharedTree sharedRules).2 = none ∧
      ((new ⟨["."]⟩ (sharedCatalog (slashed 4077))).writeAll
          sharedTree sharedRules.reverse).2 ≠ none := by
  refine
    ⟨disjointTargets_sharedRules,
      (List.reverse_perm sharedRules).symm,
      failure_flash_staged (by decide +kernel), ?_⟩
  intro hDone
  apply failure_flash_slashed (Nat.le_refl 4077)
  have hEdits :
      sharedRules.reverse.flatMap Rule.edits =
        [.addEffect "b" .flash, .addEffect "a" .glitter] := by
    decide
  rw [writeAll, hEdits, performAll] at hDone
  split at hDone
  · cases hDone
  · rename_i hFirst
    rw [hFirst]

end Writer

end LootFilter
