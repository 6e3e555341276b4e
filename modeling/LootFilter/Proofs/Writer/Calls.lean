import LootFilter.Proofs.Writer.Uses

/-
  What calls of a writer come to.

  A rule asks for each of its effects on each of its targets.
  A call that succeeds has put them all.  One that fails stops
  at a target whose table cannot be read, or at an effect that
  a descriptor does not take, with all effects before it put.

  Main declarations:
    * `Rule.asked`
    * `Writer.Refuses`
    * `Writer.Asks`
    * `Writer.asks_of_write`
    * `Writer.Makes`
    * `Writer.makes_usesEach`
-/

namespace LootFilter

open Json (Document Value)

------------------------------------------------------------
-- Effects Asked For
------------------------------------------------------------

/- The effects of a rule, on some base types in turn. -/
def Rule.askedFor
    (rule : Rule)
    (bases : List String) : List (String × VisualEffect) :=
  bases.flatMap fun base => rule.vfx.map fun effect =>
    (base, effect)

/- A rule asks for its effects on each of its targets. -/
def Rule.asked (rule : Rule) : List (String × VisualEffect) :=
  rule.askedFor rule.targets

/- The use that an effect on a base type makes. -/
def Use.asked?
    (disk : Disk)
    (dir : Path)
    (catalog : Catalog)
    (failure : Option WriteError)
    (ask : String × VisualEffect) : Option Use :=
  (catalog.asset? ask.1).map fun name =>
    ⟨disk, DataFile.asset dir name, ask.2, failure⟩

/- The effect that an edit asks for. -/
def Edit.asked? : Edit → Option (String × VisualEffect)
| .rename _ _ => none
| .addEffect base effect => some (base, effect)

section

variable {rule : Rule}

/- The edits for some of the targets of a rule. -/
def Rule.editsFor
    (rule : Rule)
    (bases : List String) : List Edit :=
  bases.flatMap fun base =>
    (if rule.changesNames then [.rename base rule] else []) ++
      rule.vfx.map (.addEffect base)

/- The edits for a base type ask for its effects. -/
theorem filterMap_asked?_cons
    (rule : Rule)
    (base : String) :
    ((if rule.changesNames then [Edit.rename base rule]
          else []) ++
        rule.vfx.map (Edit.addEffect base)).filterMap
          Edit.asked? =
      rule.vfx.map fun effect => (base, effect) := by
  have hEffects :
      (rule.vfx.map (Edit.addEffect base)).filterMap
          Edit.asked? =
        rule.vfx.map fun effect => (base, effect) := by
    rw [List.filterMap_map, ← List.filterMap_eq_map]
    rfl
  rw [List.filterMap_append, hEffects]
  split <;> rfl

/- The edits for base types ask for the effects on them. -/
theorem filterMap_asked?_editsFor
    (rule : Rule)
    (bases : List String) :
    (rule.editsFor bases).filterMap Edit.asked? =
      rule.askedFor bases := by
  simp only [Rule.editsFor, Rule.askedFor,
    List.filterMap_flatMap, filterMap_asked?_cons]

/- A rename stands before the effects of its base type. -/
theorem eq_nil_of_rename
    {first base : String}
    {other : Rule}
    {done rest : List Edit}
    (hEdits :
      (if rule.changesNames then [Edit.rename first rule]
          else []) ++
        rule.vfx.map (Edit.addEffect first) =
          done ++ .rename base other :: rest) :
    done = [] ∧ base = first ∧ rule.changesNames = true := by
  have hEffect :
      ∀ done,
        rule.vfx.map (Edit.addEffect first) ≠
          done ++ .rename base other :: rest := by
    intro done hMap
    have hMem :
        Edit.rename base other ∈
          rule.vfx.map (Edit.addEffect first) := by
      simp [hMap]
    simp at hMem
  cases hNames : rule.changesNames with
  | false =>
      simp only [hNames, Bool.false_eq_true, if_false,
        List.nil_append] at hEdits
      exact absurd hEdits (hEffect done)
  | true =>
      simp only [hNames, if_true, List.singleton_append]
        at hEdits
      cases done with
      | nil =>
          cases hEdits
          exact ⟨rfl, rfl, rfl⟩
      | cons edit done =>
          rw [List.cons_append, List.cons.injEq] at hEdits
          exact absurd hEdits.2 (hEffect done)

/- A rename comes after the effects of the targets before. -/
theorem exists_of_editsFor_eq_rename
    {bases : List String}
    {done rest : List Edit}
    {base : String}
    {other : Rule}
    (hEdits :
      rule.editsFor bases =
        done ++ .rename base other :: rest) :
    ∃ before after,
      bases = before ++ base :: after ∧
        rule.changesNames = true ∧
        done.filterMap Edit.asked? = rule.askedFor before := by
  induction bases generalizing done with
  | nil => simp [Rule.editsFor] at hEdits
  | cons first bases ih =>
      rw [Rule.editsFor, List.flatMap_cons,
        List.append_eq_append_iff] at hEdits
      rcases hEdits with
        ⟨later, rfl, hLater⟩ | ⟨here, hHere, hRest⟩
      · rcases ih hLater with
          ⟨before, after, rfl, hNames, hAsked⟩
        refine ⟨first :: before, after, rfl, hNames, ?_⟩
        rw [List.filterMap_append, filterMap_asked?_cons,
          hAsked, Rule.askedFor, Rule.askedFor,
          List.flatMap_cons]
      · cases here with
        | nil =>
            have hLater :
                rule.editsFor bases =
                  [] ++ .rename base other :: rest :=
              hRest.symm
            rcases ih hLater with
              ⟨before, after, rfl, hNames, hAsked⟩
            refine ⟨first :: before, after, rfl, hNames, ?_⟩
            rw [← List.append_nil done, ← hHere,
              filterMap_asked?_cons, Rule.askedFor,
              List.flatMap_cons, ← Rule.askedFor, ← hAsked,
              List.filterMap_nil, List.append_nil]
        | cons edit here =>
            cases hRest
            rcases eq_nil_of_rename hHere with
              ⟨rfl, rfl, hNames⟩
            exact ⟨[], bases, rfl, hNames, rfl⟩

end

namespace Writer

variable {disk : Disk} {w next : Writer} {e : WriteError}

/- Edits that succeed make the uses that they ask for. -/
theorem map_asked?_of_performAll
    {edits : List Edit}
    (hPerform : performAll disk w edits = (next, none)) :
    (edits.filterMap Edit.asked?).map
        (Use.asked? disk w.dir w.catalog none) =
      (edits.filterMap
        (Edit.use? disk w.dir w.catalog none)).map some := by
  induction edits generalizing w with
  | nil => rfl
  | cons edit edits ih =>
      have hTarget := sameTarget_perform disk w edit
      unfold performAll at hPerform
      cases hFirst : perform disk w edit with
      | mk middle failure =>
          rw [hFirst] at hPerform hTarget
          cases failure with
          | some fault => cases hPerform
          | none =>
              have hRest := ih hPerform
              rw [hTarget.dir, hTarget.catalog] at hRest
              cases edit with
              | rename base rule =>
                  simpa only [List.filterMap_cons, Edit.asked?,
                    Edit.use?] using hRest
              | addEffect base effect =>
                  rcases performEffect_cases disk w base
                      effect with
                    ⟨_, hUse⟩ | ⟨name, _, hAsset, _, _⟩
                  · cases hFirst.symm.trans hUse
                  · simp only [List.filterMap_cons,
                      Edit.asked?, Edit.use?, Use.asked?,
                      hAsset, Option.map_some,
                      List.map_cons, List.cons.injEq,
                      true_and]
                    exact hRest

/- A rename fails only if its table cannot be read. -/
theorem performRename_eq_error
    {base : String}
    {rule : Rule}
    (hPerform :
      performRename disk w base rule = (next, some e)) :
    readJson Document.values disk
        (DataFile.stringTable w.dir (isRuneKey base)) =
      .error e := by
  have hLoad :
      ∀ path staged,
        loadTable disk path staged = .error e →
          readJson Document.values disk path = .error e := by
    intro path staged hError
    cases staged with
    | some rows => cases hError
    | none => exact hError
  unfold performRename inRuneTable at hPerform
  dsimp only at hPerform
  cases hKind : isRuneKey base with
  | true =>
      rw [if_pos hKind] at hPerform
      split at hPerform
      · rename_i hError
        cases hPerform
        exact hLoad _ _ hError
      · cases hPerform
  | false =>
      rw [if_neg (by simp [hKind])] at hPerform
      split at hPerform
      · rename_i hError
        cases hPerform
        exact hLoad _ _ hError
      · cases hPerform

------------------------------------------------------------
-- Calls
------------------------------------------------------------

/-
  Why an effect cannot be put: its base type has no asset, the
  descriptor cannot be read, or the descriptor that is staged
  does not take it.
-/
inductive Refuses
    (disk : Disk)
    (dir : Path)
    (catalog : Catalog)
    (next : Writer)
    (base : String)
    (effect : VisualEffect) : WriteError → Prop
| unnamed
    (hAsset : catalog.asset? base = none) :
    Refuses disk dir catalog next base effect (.noAsset base)
| unread
    {name : String}
    {e : WriteError}
    (hAsset : catalog.asset? base = some name)
    (hNew :
      Assoc.find? (DataFile.asset dir name).components
        next.staging.assets = none)
    (hRead :
      readJson Document.value disk (DataFile.asset dir name) =
        .error e) :
    Refuses disk dir catalog next base effect e
| malformed
    {name : String}
    {a : StagedAsset}
    {fault : AssetFault}
    (hAsset : catalog.asset? base = some name)
    (hStaged :
      Assoc.find? (DataFile.asset dir name).components
        next.staging.assets = some a)
    (hApply : effect.apply a.doc = .error fault) :
    Refuses disk dir catalog next base effect
      (.malformedAsset (DataFile.asset dir name) fault.message)

/-
  The uses that a rule asks a writer for, up to a failure, if
  there is one: a table that cannot be read stops it before the
  effects of a target, and a refused effect is the last use.
-/
inductive Asks
    (disk : Disk)
    (dir : Path)
    (catalog : Catalog)
    (rule : Rule)
    (next : Writer) : Option WriteError → List Use → Prop
| all
    {uses : List Use}
    (hUses :
      rule.asked.map (Use.asked? disk dir catalog none) =
        uses.map some) :
    Asks disk dir catalog rule next none uses
| unnamed
    {before after : List String}
    {base : String}
    {e : WriteError}
    {uses : List Use}
    (hTargets : rule.targets = before ++ base :: after)
    (hNames : rule.changesNames = true)
    (hRead :
      readJson Document.values disk
          (DataFile.stringTable dir (isRuneKey base)) =
        .error e)
    (hUses :
      (rule.askedFor before).map
          (Use.asked? disk dir catalog none) =
        uses.map some) :
    Asks disk dir catalog rule next (some e) uses
| refused
    {before after : List (String × VisualEffect)}
    {base : String}
    {effect : VisualEffect}
    {e : WriteError}
    {uses : List Use}
    (hAsked : rule.asked = before ++ (base, effect) :: after)
    (hRefuses : Refuses disk dir catalog next base effect e)
    (hUses :
      before.map (Use.asked? disk dir catalog none) =
        uses.map some) :
    Asks disk dir catalog rule next (some e)
      (uses ++
        (Use.asked? disk dir catalog (some e)
          (base, effect)).toList)

/- An effect that fails is refused. -/
theorem refuses_of_performEffect
    {base : String}
    {effect : VisualEffect}
    (hPerform :
      performEffect disk w base effect = (next, some e)) :
    Refuses disk w.dir w.catalog next base effect e := by
  rcases performEffect_cases disk w base effect with
    ⟨hAsset, hUse⟩ | ⟨name, _, hAsset, rfl, hUse⟩
  · cases hPerform.symm.trans hUse
    exact .unnamed hAsset
  · rcases hUse with
      ⟨fault, hLoad, hUse⟩ | ⟨a, fault, hLoad, hApply, hUse⟩ |
        ⟨_, _, _, _, hUse⟩
    · cases hPerform.symm.trans hUse
      unfold loadAsset at hLoad
      split at hLoad
      · cases hLoad
      · rename_i hNew
        refine .unread hAsset hNew ?_
        generalize hRead :
          readJson Document.value disk
            (DataFile.asset w.dir name) = read at hLoad ⊢
        cases read with
        | error _ =>
            cases hLoad
            rfl
        | ok _ => cases hLoad
    · cases hPerform.symm.trans hUse
      exact
        .malformed hAsset (Assoc.find?_set_self _ _ _) hApply
    · cases hPerform.symm.trans hUse

/- A call makes the uses that its rule asks for. -/
theorem asks_of_write
    {rule : Rule}
    {failure : Option WriteError}
    (hWrite : w.write disk rule = (next, failure)) :
    Asks disk w.dir w.catalog rule next failure
      (usesAll disk w rule.edits) := by
  have hEdits : rule.edits = rule.editsFor rule.targets := rfl
  cases failure with
  | none =>
      have hMap := map_asked?_of_performAll hWrite
      rw [hEdits, filterMap_asked?_editsFor, ← hEdits] at hMap
      rw [usesAll_eq hWrite]
      exact .all hMap
  | some e =>
      rcases performAll_eq_error hWrite with
        ⟨done, failed, rest, middle, hSplit, hDone, hFailed⟩
      have hTarget := sameTarget_performAll disk w done
      rw [hDone] at hTarget
      have hMap := map_asked?_of_performAll hDone
      rw [hSplit, usesAll_append hDone hFailed]
      cases failed with
      | rename base other =>
          have hRead := performRename_eq_error hFailed
          rw [hTarget.dir] at hRead
          rcases exists_of_editsFor_eq_rename
              (hEdits.symm.trans hSplit) with
            ⟨before, after, hTargets, hNames, hAsked⟩
          rw [hAsked] at hMap
          rw [Edit.use?, Option.toList_none, List.append_nil]
          exact .unnamed hTargets hNames hRead hMap
      | addEffect base effect =>
          have hRefuses := refuses_of_performEffect hFailed
          rw [hTarget.dir, hTarget.catalog] at hRefuses
          have hAsked :=
            filterMap_asked?_editsFor rule rule.targets
          rw [← hEdits, hSplit, List.filterMap_append,
            List.filterMap_cons_some (f := Edit.asked?) rfl]
            at hAsked
          exact .refused hAsked.symm hRefuses hMap

/-
  The uses that calls make, one after the other.  The tree may
  change between calls, and calls may fail.
-/
inductive Makes
    (dir : Path)
    (catalog : Catalog) :
    Writer → List (Disk × Rule) → List Use → Prop
| nil (w : Writer) : Makes dir catalog w [] []
| cons
    {w next : Writer}
    {disk : Disk}
    {rule : Rule}
    {failure : Option WriteError}
    {calls : List (Disk × Rule)}
    {here later : List Use}
    (hWrite : w.write disk rule = (next, failure))
    (hAsks : Asks disk dir catalog rule next failure here)
    (hCalls : Makes dir catalog next calls later) :
    Makes dir catalog w ((disk, rule) :: calls)
      (here ++ later)

/- Calls make the uses that their rules ask for. -/
theorem makes_usesEach
    (w : Writer)
    (calls : List (Disk × Rule)) :
    Makes w.dir w.catalog w calls (w.usesEach calls) := by
  induction calls generalizing w with
  | nil => exact .nil w
  | cons call calls ih =>
      obtain ⟨disk, rule⟩ := call
      have hTarget := sameTarget_performAll disk w rule.edits
      have hCalls := ih (w.write disk rule).1
      rw [write, hTarget.dir, hTarget.catalog] at hCalls
      exact .cons rfl (asks_of_write rfl) hCalls

end Writer

end LootFilter
