import LootFilter.Proofs.Effects
import LootFilter.Proofs.Writer.Descriptors

/-
  What writers keep of the effects that they are asked for.

  Each effect is a use of a descriptor: of the file that its
  path leads to at that time.  A descriptor is staged by the
  first use that can read it, and is never read again.  So it
  is the document of that use with the effects of all uses
  that succeeded, in order, whatever failed in between.

  Main declarations:
    * `Use`
    * `Writer.usesAll`
    * `StagedBy`
    * `StagedBy.perform`
    * `Writer.usesEach`
    * `StagedBy.writeEach`
    * `StagedBy.nodup_components`
-/

namespace LootFilter

open Json (Document Value)

------------------------------------------------------------
-- Uses
------------------------------------------------------------

/-
  An effect that was to be put on a descriptor, the tree at
  that time, and how it failed, if it did.
-/
structure Use where
  disk : Disk
  path : Path
  effect : VisualEffect
  failure : Option WriteError

namespace Use

/- Descriptors are told apart by the components of paths. -/
def key (u : Use) : List String :=
  u.path.components

/- The document that is there at that time. -/
def doc? (u : Use) : Option Value :=
  (DataFile.readJson Document.value u.disk u.path).toOption

/- It is there if it can be read. -/
theorem doc?_eq_some_iff
    {u : Use}
    {doc : Value} :
    u.doc? = some doc ↔
      DataFile.readJson Document.value u.disk u.path =
        .ok doc := by
  unfold doc?
  cases DataFile.readJson Document.value u.disk u.path <;>
    simp [Except.toOption]

end Use

/- The use that an edit makes of a descriptor. -/
def Edit.use?
    (disk : Disk)
    (dir : Path)
    (catalog : Catalog)
    (failure : Option WriteError) : Edit → Option Use
| .rename _ _ => none
| .addEffect base effect =>
    (catalog.asset? base).map fun name =>
      ⟨disk, DataFile.asset dir name, effect, failure⟩

/- A rule puts each of its effects on each of its targets. -/
theorem addEffect_mem_edits_iff
    {rule : Rule}
    {base : String}
    {effect : VisualEffect} :
    .addEffect base effect ∈ rule.edits ↔
      base ∈ rule.targets ∧ effect ∈ rule.vfx := by
  have hName :
      ∀ target,
        Edit.addEffect base effect ∉
          if rule.changesNames then
            [Edit.rename target rule]
          else
            [] := by
    intro target
    split <;> simp
  simp only [Rule.edits, List.mem_flatMap, List.mem_append,
    hName, false_or, List.mem_map, Edit.addEffect.injEq]
  constructor
  · rintro ⟨target, hTarget, other, hOther, rfl, rfl⟩
    exact ⟨hTarget, hOther⟩
  · rintro ⟨hBase, hEffect⟩
    exact ⟨base, hBase, effect, hEffect, rfl, rfl⟩

/- The descriptors that were read, in the order of reading. -/
def readKeys (uses : List Use) : List (List String) :=
  ((uses.filter (·.doc?.isSome)).map Use.key).eraseDups

/- The effects that were put on a descriptor, in order. -/
def effectsOn
    (key : List String)
    (uses : List Use) : List VisualEffect :=
  (uses.filter fun u =>
    u.key = key ∧ u.failure = none).map Use.effect

variable {uses : List Use} {key : List String}

/- A descriptor was read if a use found its document. -/
theorem mem_readKeys_iff :
    key ∈ readKeys uses ↔
      ∃ u ∈ uses, u.key = key ∧ u.doc? ≠ none := by
  simp only [readKeys, List.mem_eraseDups, List.mem_map,
    List.mem_filter, Option.isSome_iff_ne_none]
  constructor
  · rintro ⟨u, ⟨hMem, hDoc⟩, hKey⟩
    exact ⟨u, hMem, hKey, hDoc⟩
  · rintro ⟨u, hMem, hKey, hDoc⟩
    exact ⟨u, ⟨hMem, hDoc⟩, hKey⟩

/- One more use reads a descriptor if none did so before. -/
theorem readKeys_concat (uses : List Use) (u : Use) :
    readKeys (uses ++ [u]) =
      if u.doc? = none ∨ u.key ∈ readKeys uses then
        readKeys uses
      else
        readKeys uses ++ [u.key] := by
  rw [readKeys, List.filter_append, List.map_append]
  cases hDoc : u.doc? with
  | none => simp [hDoc, readKeys]
  | some doc =>
      simp only [hDoc, Option.isSome_some,
        List.filter_cons_of_pos, List.filter_nil,
        List.map_cons, List.map_nil, reduceCtorEq, false_or,
        readKeys, List.mem_eraseDups]
      exact eraseDups_concat _ _

/- One more use puts its effect unless it fails. -/
theorem effectsOn_concat
    (key : List String)
    (uses : List Use)
    (u : Use) :
    effectsOn key (uses ++ [u]) =
      effectsOn key uses ++
        if u.key = key ∧ u.failure = none then
          [u.effect]
        else
          [] := by
  rw [effectsOn, List.filter_append, List.map_append]
  by_cases hUse : u.key = key ∧ u.failure = none
  · simp [hUse, effectsOn]
  · simp [hUse, effectsOn]

------------------------------------------------------------
-- Staged Descriptors
------------------------------------------------------------

/-
  Whether descriptors are staged by uses.  The first use that
  can read a descriptor stages it under its spelling of the
  path, and no use that succeeds is lost.
-/
structure StagedBy
    (uses : List Use)
    (assets : Assoc (List String) StagedAsset) : Prop where
  keys : Assoc.keys assets = readKeys uses
  descriptor :
    ∀ key a,
      Assoc.find? key assets = some a →
        ∃ before first after doc,
          uses = before ++ first :: after ∧
            first.key = key ∧
            (∀ u ∈ before, u.key = key → u.doc? = none) ∧
            a.path = first.path ∧
            first.doc? = some doc ∧
            VisualEffect.applyAll (effectsOn key uses) doc =
              .ok a.doc
  kept :
    ∀ u ∈ uses, u.failure = none → u.key ∈ Assoc.keys assets

namespace StagedBy

variable {assets : Assoc (List String) StagedAsset}

/- Without uses, nothing is staged. -/
theorem nil : StagedBy [] [] where
  keys := rfl
  descriptor := by
    intro key a hFind
    cases hFind
  kept := by simp

/- No effect was put on what is not staged. -/
theorem effectsOn_eq_nil
    (hStaged : StagedBy uses assets)
    (hNew : Assoc.find? key assets = none) :
    effectsOn key uses = [] := by
  rw [Assoc.find?_eq_none_iff] at hNew
  rw [effectsOn, List.map_eq_nil_iff, List.filter_eq_nil_iff]
  intro u hMem hUse
  rw [decide_eq_true_iff] at hUse
  exact hNew (hUse.1 ▸ hStaged.kept u hMem hUse.2)

/- A use that finds no document leaves no trace. -/
theorem skip
    (hStaged : StagedBy uses assets)
    {u : Use}
    (hDoc : u.doc? = none)
    (hFailed : u.failure ≠ none) :
    StagedBy (uses ++ [u]) assets where
  keys := by
    rw [readKeys_concat, if_pos (Or.inl hDoc)]
    exact hStaged.keys
  descriptor := by
    intro key a hFind
    rcases hStaged.descriptor key a hFind with
      ⟨before, first, after, doc, rfl, hFirst⟩
    refine ⟨before, first, after ++ [u], doc, by simp, ?_⟩
    rw [effectsOn_concat, if_neg (fun h => hFailed h.2),
      List.append_nil]
    exact hFirst
  kept := by
    intro v hMem hDone
    rcases List.mem_append.mp hMem with hOld | hLast
    · exact hStaged.kept v hOld hDone
    · rw [List.mem_singleton.mp hLast] at hDone
      exact absurd hDone hFailed

/-
  A use takes the descriptor that is staged, or else the one
  of its file, and stages it with its effect, if that can be
  put there.
-/
theorem stage
    (hStaged : StagedBy uses assets)
    {u : Use}
    {a b : StagedAsset}
    (hLoad :
      Assoc.find? u.key assets = some a ∨
        Assoc.find? u.key assets = none ∧
          a.path = u.path ∧
          DataFile.readJson Document.value u.disk u.path =
            .ok a.doc)
    (hPath : b.path = a.path)
    (hDoc :
      VisualEffect.applyAll
          (if u.failure = none then [u.effect] else []) a.doc =
        .ok b.doc) :
    StagedBy (uses ++ [u]) (Assoc.set u.key b assets) where
  keys := by
    rw [Assoc.keys_set, readKeys_concat, hStaged.keys]
    rw [← Use.doc?_eq_some_iff] at hLoad
    rcases hLoad with hFound | ⟨hNew, _, hRead⟩
    · have hKey : u.key ∈ readKeys uses := by
        rw [← hStaged.keys]
        exact
          List.mem_map_of_mem (Assoc.mem_of_find?_eq_some hFound)
      rw [if_pos hKey, if_pos (Or.inr hKey)]
    · simp [hRead]
  descriptor := by
    intro key c hFind
    by_cases hKey : key = u.key
    · subst hKey
      rw [Assoc.find?_set_self, Option.some.injEq] at hFind
      subst hFind
      rw [effectsOn_concat]
      simp only [true_and]
      rcases hLoad with hFound | ⟨hNew, hOwn, hRead⟩
      · -- The effects of the staged descriptor go before.
        rcases hStaged.descriptor _ a hFound with
          ⟨before, first, after, doc, rfl, hFirst, hNone,
            hFirstPath, hFirstDoc, hApply⟩
        refine
          ⟨before, first, after ++ [u], doc, by simp, hFirst,
            hNone, hPath.trans hFirstPath, hFirstDoc, ?_⟩
        exact
          VisualEffect.applyAll_append_eq_ok_iff.mpr
            ⟨a.doc, hApply, hDoc⟩
      · -- The use is the first one to find the document.
        have hUnread : u.key ∉ readKeys uses := by
          rw [← hStaged.keys]
          exact Assoc.find?_eq_none_iff.mp hNew
        refine
          ⟨uses, u, [], a.doc, rfl, rfl, ?_,
            hPath.trans hOwn, Use.doc?_eq_some_iff.mpr hRead,
            ?_⟩
        · intro v hMem hSame
          by_contra hSome
          exact
            hUnread
              (mem_readKeys_iff.mpr ⟨v, hMem, hSame, hSome⟩)
        · rwa [hStaged.effectsOn_eq_nil hNew, List.nil_append]
    · rw [Assoc.find?_set_of_ne hKey] at hFind
      rcases hStaged.descriptor key c hFind with
        ⟨before, first, after, doc, rfl, hFirst⟩
      refine ⟨before, first, after ++ [u], doc, by simp, ?_⟩
      rw [effectsOn_concat, if_neg (fun h => hKey h.1.symm),
        List.append_nil]
      exact hFirst
  kept := by
    intro v hMem hDone
    rw [Assoc.keys_set]
    rcases List.mem_append.mp hMem with hOld | hLast
    · have hKey := hStaged.kept v hOld hDone
      split
      · exact hKey
      · exact List.mem_append_left _ hKey
    · rw [List.mem_singleton.mp hLast]
      split
      · assumption
      · simp

end StagedBy

/- Staging an edit stages its use. -/
theorem StagedBy.perform
    {w : Writer}
    (hStaged : StagedBy uses w.staging.assets)
    (disk : Disk)
    (edit : Edit) :
    StagedBy
      (uses ++
        (edit.use? disk w.dir w.catalog
          (Writer.perform disk w edit).2).toList)
      (Writer.perform disk w edit).1.staging.assets := by
  cases edit with
  | rename base rule =>
      rw [Writer.perform, Writer.assets_performRename]
      simpa [Edit.use?] using hStaged
  | addEffect base effect =>
      rw [Writer.perform, Edit.use?]
      rcases Writer.performEffect_cases disk w base effect with
        ⟨hAsset, hPerform⟩ |
          ⟨name, path, hAsset, rfl, hUse⟩
      · rw [hAsset, hPerform]
        simpa using hStaged
      · rw [hAsset, Option.map_some, Option.toList_some]
        rcases hUse with
          ⟨e, hLoad, hPerform⟩ |
            ⟨a, fault, hLoad, hApply, hPerform⟩ |
            ⟨a, doc, hLoad, hApply, hPerform⟩ <;>
          rw [hPerform]
        · apply hStaged.skip
          · rw [Option.eq_none_iff_forall_ne_some]
            intro doc hDoc
            have hRead := Use.doc?_eq_some_iff.mp hDoc
            exact Writer.loadAsset_eq_error hLoad doc hRead
          · exact Option.some_ne_none e
        · -- What refuses the effect was read, so it is staged.
          have hLoaded := Writer.loadAsset_eq_ok hLoad
          exact
            hStaged.stage
              (u := ⟨disk, _, effect, some _⟩) hLoaded rfl
              (by simp)
        · have hLoaded := Writer.loadAsset_eq_ok hLoad
          exact
            hStaged.stage
              (u := ⟨disk, _, effect, none⟩) hLoaded rfl
              (by simpa using hApply)

------------------------------------------------------------
-- Runs
------------------------------------------------------------

namespace Writer

variable {disk : Disk} {w next : Writer} {e : WriteError}

/- The uses while edits are staged, up to the first failure. -/
def usesAll
    (disk : Disk)
    (w : Writer) : List Edit → List Use
| [] => []
| edit :: edits =>
    match perform disk w edit with
    | (_, some e) =>
        (edit.use? disk w.dir w.catalog (some e)).toList
    | (next, none) =>
        (edit.use? disk w.dir w.catalog none).toList ++
          usesAll disk next edits

/-
  A writer after calls to stage a rule each.  The tree may
  change between calls, and calls may fail.
-/
def writeEach (w : Writer) : List (Disk × Rule) → Writer
| [] => w
| (disk, rule) :: calls =>
    writeEach (w.write disk rule).1 calls

/- The uses while rules are staged. -/
def usesEach (w : Writer) : List (Disk × Rule) → List Use
| [] => []
| (disk, rule) :: calls =>
    usesAll disk w rule.edits ++
      usesEach (w.write disk rule).1 calls

/- If edits fail, one of them does after all before it. -/
theorem performAll_eq_error
    {edits : List Edit}
    (hPerform : performAll disk w edits = (next, some e)) :
    ∃ done failed rest middle,
      edits = done ++ failed :: rest ∧
        performAll disk w done = (middle, none) ∧
        perform disk middle failed = (next, some e) := by
  induction edits generalizing w with
  | nil => cases hPerform
  | cons edit edits ih =>
      unfold performAll at hPerform
      cases hFirst : perform disk w edit with
      | mk middle failure =>
          rw [hFirst] at hPerform
          cases failure with
          | some fault =>
              cases hPerform
              exact ⟨[], edit, edits, w, rfl, rfl, hFirst⟩
          | none =>
              rcases ih hPerform with
                ⟨done, failed, rest, last, rfl, hDone, hLast⟩
              refine
                ⟨edit :: done, failed, rest, last, rfl, ?_,
                  hLast⟩
              simp only [performAll, hFirst, hDone]

/- If edits succeed, each of them does with its use. -/
theorem usesAll_eq
    {edits : List Edit}
    (hPerform : performAll disk w edits = (next, none)) :
    usesAll disk w edits =
      edits.filterMap
        (Edit.use? disk w.dir w.catalog none) := by
  induction edits generalizing w with
  | nil => rfl
  | cons edit edits ih =>
      have hTarget := sameTarget_perform disk w edit
      unfold performAll at hPerform
      unfold usesAll
      cases hFirst : perform disk w edit with
      | mk middle failure =>
          rw [hFirst] at hPerform hTarget
          cases failure with
          | some fault => cases hPerform
          | none =>
              dsimp only
              rw [ih hPerform, hTarget.dir, hTarget.catalog,
                List.filterMap_cons]
              cases edit.use? disk w.dir w.catalog none <;> rfl

/- If edits fail, the last use is that of the failing one. -/
theorem usesAll_append
    {done rest : List Edit}
    {middle : Writer}
    {failed : Edit}
    (hDone : performAll disk w done = (middle, none))
    (hFailed : perform disk middle failed = (next, some e)) :
    usesAll disk w (done ++ failed :: rest) =
      done.filterMap (Edit.use? disk w.dir w.catalog none) ++
        (failed.use? disk w.dir w.catalog (some e)).toList := by
  induction done generalizing w with
  | nil =>
      cases hDone
      simp only [List.nil_append, usesAll, hFailed,
        List.filterMap_nil]
  | cons edit done ih =>
      have hTarget := sameTarget_perform disk w edit
      unfold performAll at hDone
      rw [List.cons_append, usesAll]
      cases hFirst : perform disk w edit with
      | mk second failure =>
          rw [hFirst] at hDone hTarget
          cases failure with
          | some fault => cases hDone
          | none =>
              dsimp only
              rw [ih hDone, hTarget.dir, hTarget.catalog,
                List.filterMap_cons]
              cases edit.use? disk w.dir w.catalog none <;> rfl

/- Each use is that of an effect on an asset's descriptor. -/
theorem exists_of_mem_usesAll
    {edits : List Edit}
    {u : Use}
    (hMem : u ∈ usesAll disk w edits) :
    ∃ base name,
      .addEffect base u.effect ∈ edits ∧
        w.catalog.asset? base = some name ∧
        u.path = DataFile.asset w.dir name := by
  induction edits generalizing w with
  | nil => cases hMem
  | cons edit edits ih =>
      have hHere :
          ∀ failure,
            edit.use? disk w.dir w.catalog failure = some u →
              ∃ base name,
                .addEffect base u.effect ∈ edit :: edits ∧
                  w.catalog.asset? base = some name ∧
                  u.path = DataFile.asset w.dir name := by
        intro failure hUse
        cases edit with
        | rename base rule => cases hUse
        | addEffect base effect =>
            rcases Option.map_eq_some_iff.mp hUse with
              ⟨name, hAsset, rfl⟩
            exact ⟨base, name, List.mem_cons_self, hAsset, rfl⟩
      have hTarget := sameTarget_perform disk w edit
      unfold usesAll at hMem
      cases hPerform : perform disk w edit with
      | mk next failure =>
          rw [hPerform] at hMem hTarget
          cases failure with
          | some e => exact hHere _ (Option.mem_toList.mp hMem)
          | none =>
              rcases List.mem_append.mp hMem with hFirst | hRest
              · exact hHere _ (Option.mem_toList.mp hFirst)
              · rcases ih hRest with
                  ⟨base, name, hEdit, hAsset, hPath⟩
                rw [hTarget.catalog] at hAsset
                rw [hTarget.dir] at hPath
                exact
                  ⟨base, name, List.mem_cons_of_mem _ hEdit,
                    hAsset, hPath⟩

/- Staging edits keeps the directory and the catalog. -/
theorem sameTarget_performAll
    (disk : Disk)
    (w : Writer)
    (edits : List Edit) :
    SameTarget w (performAll disk w edits).1 := by
  apply performAll_preserves (P := SameTarget w)
  · intro middle edit hTarget
    have hStep := sameTarget_perform disk middle edit
    exact
      ⟨hStep.dir.trans hTarget.dir,
        hStep.catalog.trans hTarget.catalog⟩
  · exact ⟨rfl, rfl⟩

/- What staging any edit keeps, staging rules keeps. -/
theorem writeEach_preserves
    {P : Writer → Prop}
    (hStep :
      ∀ (disk : Disk) (w : Writer) (edit : Edit),
        P w → P (perform disk w edit).1)
    (hHolds : P w)
    (calls : List (Disk × Rule)) :
    P (w.writeEach calls) := by
  induction calls generalizing w with
  | nil => exact hHolds
  | cons call calls ih =>
      exact
        ih (performAll_preserves (hStep call.1) hHolds
          call.2.edits)

/- Staging rules keeps the directory and the catalog. -/
theorem sameTarget_writeEach
    (w : Writer)
    (calls : List (Disk × Rule)) :
    SameTarget w (w.writeEach calls) := by
  apply writeEach_preserves (P := SameTarget w)
  · intro disk middle edit hTarget
    have hStep := sameTarget_perform disk middle edit
    exact
      ⟨hStep.dir.trans hTarget.dir,
        hStep.catalog.trans hTarget.catalog⟩
  · exact ⟨rfl, rfl⟩

/- Staging rules uses paths of documents only. -/
theorem NamesDocuments.writeEach
    (hNamed : w.NamesDocuments)
    (calls : List (Disk × Rule)) :
    (w.writeEach calls).NamesDocuments :=
  writeEach_preserves
    (fun disk _ edit hHolds => hHolds.perform disk edit)
    hNamed calls

end Writer

/- Staging edits stages their uses. -/
theorem StagedBy.performAll
    {w : Writer}
    (hStaged : StagedBy uses w.staging.assets)
    (disk : Disk)
    (edits : List Edit) :
    StagedBy (uses ++ Writer.usesAll disk w edits)
      (Writer.performAll disk w edits).1.staging.assets := by
  induction edits generalizing w uses with
  | nil => simpa [Writer.usesAll, Writer.performAll] using hStaged
  | cons edit edits ih =>
      have hFirst := hStaged.perform disk edit
      unfold Writer.usesAll Writer.performAll
      cases hPerform : Writer.perform disk w edit with
      | mk next failure =>
          rw [hPerform] at hFirst
          cases failure with
          | some e => exact hFirst
          | none =>
              dsimp only
              rw [← List.append_assoc]
              exact ih hFirst

/- Staging rules stages their uses, whatever fails. -/
theorem StagedBy.writeEach
    {w : Writer}
    (hStaged : StagedBy uses w.staging.assets)
    (calls : List (Disk × Rule)) :
    StagedBy (uses ++ w.usesEach calls)
      (w.writeEach calls).staging.assets := by
  induction calls generalizing w uses with
  | nil => simpa [Writer.usesEach, Writer.writeEach] using hStaged
  | cons call calls ih =>
      obtain ⟨disk, rule⟩ := call
      rw [Writer.usesEach, ← List.append_assoc]
      exact ih (hStaged.performAll disk rule.edits)

/- What a new writer stages is staged by its uses. -/
theorem stagedBy_performAll_new
    (disk : Disk)
    (dir : Path)
    (catalog : Catalog)
    (edits : List Edit) :
    StagedBy (Writer.usesAll disk (Writer.new dir catalog) edits)
      (Writer.performAll disk (Writer.new dir catalog)
        edits).1.staging.assets := by
  have hStaged :=
    StagedBy.nil.performAll (w := Writer.new dir catalog) disk
      edits
  rwa [List.nil_append] at hStaged

/- If it stages all edits, these are the uses of the edits. -/
theorem stagedBy_of_performAll_new
    {disk : Disk}
    {dir : Path}
    {catalog : Catalog}
    {edits : List Edit}
    {w : Writer}
    (hPerform :
      Writer.performAll disk (Writer.new dir catalog) edits =
        (w, none)) :
    StagedBy
      (edits.filterMap (Edit.use? disk dir catalog none))
      w.staging.assets := by
  have hStaged := stagedBy_performAll_new disk dir catalog edits
  rwa [hPerform, Writer.usesAll_eq hPerform] at hStaged

namespace StagedBy

variable {assets : Assoc (List String) StagedAsset}

/- Each descriptor is staged once. -/
theorem nodup_keys
    (hStaged : StagedBy uses assets) :
    (Assoc.keys assets).Nodup := by
  rw [hStaged.keys]
  exact nodup_eraseDups _

/- A staged descriptor has the path of one of its uses. -/
theorem exists_of_mem
    (hStaged : StagedBy uses assets)
    {entry : List String × StagedAsset}
    (hMem : entry ∈ assets) :
    ∃ u ∈ uses, u.key = entry.1 ∧ entry.2.path = u.path := by
  rcases hStaged.descriptor entry.1 entry.2
      ((Assoc.find?_eq_some_iff hStaged.nodup_keys).mpr
        hMem) with
    ⟨before, first, after, _, rfl, hKey, _, hPath, _⟩
  exact ⟨first, by simp, hKey, hPath⟩

/- Descriptors that are staged have different components. -/
theorem nodup_components
    (hStaged : StagedBy uses assets) :
    (assets.map fun entry => entry.2.path.components).Nodup := by
  have hKeys :
      assets.map (fun entry => entry.2.path.components) =
        Assoc.keys assets := by
    apply List.map_congr_left
    intro entry hMem
    rcases hStaged.exists_of_mem hMem with
      ⟨u, _, hKey, hPath⟩
    rw [hPath, ← hKey]
    rfl
  rw [hKeys]
  exact hStaged.nodup_keys

end StagedBy

end LootFilter
