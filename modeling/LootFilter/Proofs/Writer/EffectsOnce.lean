import LootFilter.Proofs.Writer.Uses

/-
  Effects that are put on a descriptor one after the other.

  Whether a descriptor refuses an effect is decided by what it
  was before all of them, and a refusal leaves it as it is.  A
  descriptor that carries an effect, because it did at first
  or was given it, goes on to carry it; putting the effect on
  it once more changes nothing, whatever a writer staged since.

  Main declarations:
    * `VisualEffect.IsCarriedBy`
    * `VisualEffect.IsRefusedBy`
    * `VisualEffect.putAll`
    * `VisualEffect.PutAfter`
    * `VisualEffect.HasGained`
    * `Writer.Carries`
    * `Writer.putAll_inTurn`
-/

namespace LootFilter

open Json (Value)

namespace VisualEffect

variable {effect other : VisualEffect}
variable {effects done : List VisualEffect}
variable {entities : List Value} {doc result : Value}

------------------------------------------------------------
-- One Effect
------------------------------------------------------------

/- Whether one of a descriptor's entities is that of an effect. -/
def IsCarriedBy
    (effect : VisualEffect)
    (doc : Value) : Prop :=
  ∃ entities,
    entities? doc = some entities ∧ effect.isIn entities = true

/-
  Whether a descriptor lacks what an effect needs: a list of
  entities, and for the beam, unless it is there, a list of
  particles.
-/
def IsRefusedBy
    (effect : VisualEffect)
    (doc : Value) : Prop :=
  entities? doc = none ∨
    effect = .beam ∧ ¬ effect.IsCarriedBy doc ∧
      particleList? doc = none

/- An effect is put on all other descriptors. -/
theorem exists_apply_iff :
    (∃ result, effect.apply doc = .ok result) ↔
      ¬ effect.IsRefusedBy doc := by
  unfold IsRefusedBy IsCarriedBy
  cases hEntities : entities? doc with
  | none => simp [apply_ne_ok hEntities]
  | some entities =>
      simp only [apply_eq_ok_iff hEntities]
      cases hIn : effect.isIn entities <;> simp [hIn]

/- It fails on those that refuse it. -/
theorem exists_putOn_eq_error_iff :
    (∃ fault after,
        effect.putOn.run doc = .error fault after) ↔
      effect.IsRefusedBy doc := by
  rw [← not_iff_not, ← exists_apply_iff]
  simp only [apply_eq_ok_iff_putOn]
  cases effect.putOn.run doc <;> simp

/- An effect that is carried is put there without a change. -/
theorem IsCarriedBy.putOn
    (hCarried : effect.IsCarriedBy doc) :
    effect.putOn.run doc = .ok () doc := by
  rcases hCarried with ⟨entities, hEntities, hIn⟩
  rw [run_putOn hEntities, if_pos hIn]

/- An effect that was put on a descriptor is carried. -/
theorem isCarriedBy_of_apply
    (hApply : effect.apply doc = .ok result) :
    effect.IsCarriedBy result := by
  cases hEntities : entities? doc with
  | none => exact absurd hApply (apply_ne_ok hEntities)
  | some entities =>
      have hResult := (apply_eq_ok_iff hEntities).mp hApply
      split at hResult
      · rename_i hIn
        rw [hResult]
        exact ⟨entities, hEntities, hIn⟩
      · rw [hResult.2]
        refine ⟨_, entities?_withEffects hEntities _, ?_⟩
        rw [isIn_append_map]
        exact Or.inr (List.mem_singleton.mpr rfl)

/- Putting another effect there keeps those that are carried. -/
theorem IsCarriedBy.apply
    (hCarried : effect.IsCarriedBy doc)
    (hApply : other.apply doc = .ok result) :
    effect.IsCarriedBy result := by
  rcases hCarried with ⟨entities, hEntities, hIn⟩
  have hResult := (apply_eq_ok_iff hEntities).mp hApply
  split at hResult
  · rw [hResult]
    exact ⟨entities, hEntities, hIn⟩
  · rw [hResult.2]
    refine ⟨_, entities?_withEffects hEntities _, ?_⟩
    rw [isIn_append_map]
    exact Or.inl hIn

------------------------------------------------------------
-- Many Effects
------------------------------------------------------------

/- The descriptor after an effect, put there or refused. -/
def after (doc : Value) (effect : VisualEffect) : Value :=
  match effect.putOn.run doc with
  | .ok _ result => result
  | .error _ result => result

/-
  The descriptor after effects, one after the other, whichever
  of them are refused.
-/
def putAll
    (effects : List VisualEffect)
    (doc : Value) : Value :=
  effects.foldl after doc

/- The last effect is put on what those before it left. -/
theorem putAll_concat
    (done : List VisualEffect)
    (effect : VisualEffect)
    (doc : Value) :
    putAll (done ++ [effect]) doc =
      after (putAll done doc) effect := by
  simp [putAll]

/- A refusal changes nothing. -/
theorem after_of_refused
    (hRefused : effect.IsRefusedBy doc) :
    after doc effect = doc := by
  rcases exists_putOn_eq_error_iff.mpr hRefused with
    ⟨fault, result, hPut⟩
  unfold after
  rw [hPut]
  exact eq_of_run_putOn hPut

/- Otherwise the effect is put there. -/
theorem apply_eq_after
    (hTakes : ¬ effect.IsRefusedBy doc) :
    effect.apply doc = .ok (after doc effect) := by
  rcases exists_apply_iff.mpr hTakes with ⟨result, hApply⟩
  have hPut := apply_eq_ok_iff_putOn.mp hApply
  unfold after
  rw [hPut]
  exact hApply

/- An effect does not change what a descriptor refuses. -/
theorem isRefusedBy_after_iff :
    effect.IsRefusedBy (after doc other) ↔
      effect.IsRefusedBy doc := by
  by_cases hRefused : other.IsRefusedBy doc
  · rw [after_of_refused hRefused]
  · have hApply :
        applyAll [other] doc = .ok (after doc other) := by
      rw [applyAll_singleton, apply_eq_after hRefused]
    rw [← not_iff_not, ← exists_apply_iff, ← exists_apply_iff]
    exact exists_apply_iff_of_applyAll hApply

/- An effect keeps those that are carried. -/
theorem IsCarriedBy.after
    (hCarried : effect.IsCarriedBy doc)
    (other : VisualEffect) :
    effect.IsCarriedBy (after doc other) := by
  by_cases hRefused : other.IsRefusedBy doc
  · rwa [after_of_refused hRefused]
  · exact hCarried.apply (apply_eq_after hRefused)

/- So effects do not change what a descriptor refuses. -/
theorem isRefusedBy_putAll_iff
    (done : List VisualEffect) :
    effect.IsRefusedBy (putAll done doc) ↔
      effect.IsRefusedBy doc := by
  induction done using List.reverseRecOn with
  | nil => rfl
  | append_singleton done other ih =>
      rw [putAll_concat, isRefusedBy_after_iff, ih]

/- An effect that was put on a descriptor stays there. -/
theorem isCarriedBy_putAll
    (hMem : effect ∈ done)
    (hTakes : ¬ effect.IsRefusedBy doc) :
    effect.IsCarriedBy (putAll done doc) := by
  induction done using List.reverseRecOn with
  | nil => cases hMem
  | append_singleton done other ih =>
      rw [putAll_concat]
      rcases List.mem_append.mp hMem with hOld | hLast
      · exact (ih hOld).after other
      · rw [List.mem_singleton.mp hLast] at hTakes ⊢
        apply isCarriedBy_of_apply
        apply apply_eq_after
        rwa [isRefusedBy_putAll_iff]

/-
  What becomes of an effect after others were put on a
  descriptor, or refused.
-/
structure PutAfter
    (doc : Value)
    (done : List VisualEffect)
    (effect : VisualEffect) : Prop where
  fails_iff :
    (∃ fault next,
        effect.putOn.run (putAll done doc) =
          .error fault next) ↔
      effect.IsRefusedBy (putAll done doc)
  refused_iff :
    effect.IsRefusedBy (putAll done doc) ↔
      effect.IsRefusedBy doc
  unchanged :
    ∀ fault next,
      effect.putOn.run (putAll done doc) = .error fault next →
        next = putAll done doc
  repeated :
    effect ∈ done ∨ effect.IsCarriedBy (putAll done doc) →
      putAll (done ++ [effect]) doc = putAll done doc

/- It is so for all effects. -/
theorem putAfter
    (doc : Value)
    (done : List VisualEffect)
    (effect : VisualEffect) :
    PutAfter doc done effect where
  fails_iff := exists_putOn_eq_error_iff
  refused_iff := isRefusedBy_putAll_iff done
  unchanged _ _ := eq_of_run_putOn
  repeated := by
    intro hAgain
    rw [putAll_concat]
    by_cases hRefused : effect.IsRefusedBy (putAll done doc)
    · exact after_of_refused hRefused
    · have hCarried :
          effect.IsCarriedBy (putAll done doc) := by
        rcases hAgain with hMem | hCarried
        · rw [isRefusedBy_putAll_iff] at hRefused
          exact isCarriedBy_putAll hMem hRefused
        · exact hCarried
      unfold VisualEffect.after
      rw [hCarried.putOn]

/-
  Whether a descriptor has gained the entities of effects,
  behind its own, and the particles of the beam, behind those
  it lists, if the beam is one of the effects.
-/
def HasGained
    (doc : Value)
    (entities : List Value)
    (gained : List VisualEffect)
    (result : Value) : Prop :=
  let listed : Value := .array (entities ++ gained.map entity)
  let path : Value :=
    .object [("path", .text (particles .beam))]
  (.beam ∉ gained →
    result = doc.setMember "entities" listed) ∧
  (.beam ∈ gained →
    ∃ dependencies list,
      doc.member? "dependencies" = some dependencies ∧
        dependencies.member? "particles" =
          some (.array list) ∧
        result =
          (doc.setMember "dependencies"
            (dependencies.setMember "particles"
              (.array (list ++ [path])))).setMember "entities"
            listed)

/- Particles are listed among the dependencies. -/
theorem exists_dependencies_of_particleList?
    (hList : particleList? doc ≠ none) :
    ∃ dependencies list,
      doc.member? "dependencies" = some dependencies ∧
        dependencies.member? "particles" =
          some (.array list) ∧
        withParticles doc =
          doc.setMember "dependencies"
            (dependencies.setMember "particles"
              (.array
                (list ++
                  [.object
                    [("path", .text (particles .beam))]]))) := by
  rcases Option.ne_none_iff_exists'.mp hList with
    ⟨list, hSome⟩
  have hParts := hSome
  simp only [particleList?, bind, Option.bind_eq_some_iff]
    at hParts
  rcases hParts with
    ⟨dependencies, hDependencies, v, hParticles, hItems⟩
  cases v with
  | array items =>
      cases hItems
      refine ⟨dependencies, list, hDependencies, hParticles, ?_⟩
      simp [withParticles, pushParticles, hDependencies, hSome,
        Except.toOption]
  | _ => cases hItems

/- If no effect is refused, the descriptor is what they give. -/
theorem putAll_eq_of_applyAll
    (hApply : applyAll effects doc = .ok result) :
    putAll effects doc = result := by
  induction effects using List.reverseRecOn
    generalizing result with
  | nil =>
      cases hApply
      rfl
  | append_singleton effects effect ih =>
      rcases applyAll_append_eq_ok_iff.mp hApply with
        ⟨middle, hMiddle, hLast⟩
      rw [applyAll_singleton, apply_eq_ok_iff_putOn] at hLast
      rw [putAll_concat, ih hMiddle, after, hLast]

/-
  If all effects are put on a descriptor, it gains those that
  it lacks, in the order in which they first occur.
-/
theorem hasGained_putAll
    (hAll :
      ∀ done effect rest,
        effects = done ++ effect :: rest →
          ∃ next,
            effect.putOn.run (putAll done doc) = .ok () next) :
    match entities? doc with
    | none => effects = [] ∧ putAll effects doc = doc
    | some entities =>
        HasGained doc entities (missing entities effects)
          (putAll effects doc) := by
  have hEach :
      ∀ effect ∈ effects,
        ∃ result, effect.apply doc = .ok result := by
    intro effect hMem
    rcases List.append_of_mem hMem with ⟨done, rest, hSplit⟩
    rcases hAll done effect rest hSplit with ⟨next, hPut⟩
    rw [exists_apply_iff, ← isRefusedBy_putAll_iff done,
      ← exists_apply_iff]
    exact ⟨next, apply_eq_ok_iff_putOn.mpr hPut⟩
  rcases (exists_applyAll_iff effects doc).mpr hEach with
    ⟨result, hApply⟩
  rw [putAll_eq_of_applyAll hApply]
  cases hEntities : entities? doc with
  | none =>
      cases effects with
      | nil =>
          cases hApply
          exact ⟨rfl, rfl⟩
      | cons effect effects =>
          rcases hEach effect List.mem_cons_self with
            ⟨first, hFirst⟩
          exact absurd hFirst (apply_ne_ok hEntities)
  | some entities =>
      rcases (applyAll_eq_ok_iff hEntities).mp hApply with
        ⟨hBeam, hResult⟩
      dsimp only
      rw [hResult]
      unfold withEffects HasGained
      refine ⟨fun hNone => ?_, fun hSome => ?_⟩
      · simp only [if_neg hNone]
      · rcases exists_dependencies_of_particleList?
            (hBeam hSome) with
          ⟨dependencies, list, hDependencies, hList, hWith⟩
        refine ⟨dependencies, list, hDependencies, hList, ?_⟩
        simp only [if_pos hSome, hWith]

end VisualEffect

------------------------------------------------------------
-- Writers
------------------------------------------------------------

namespace Writer

variable {disk : Disk} {w next : Writer} {base : String}
variable {effect : VisualEffect}

/- Whether the staged descriptor of an asset carries an effect. -/
def Carries
    (w : Writer)
    (base : String)
    (effect : VisualEffect) : Prop :=
  ∃ name a,
    w.catalog.asset? base = some name ∧
      Assoc.find? (DataFile.asset w.dir name).components
          w.staging.assets = some a ∧
      effect.IsCarriedBy a.doc

/- It then takes the effect again without a change. -/
theorem Carries.performEffect
    (hCarries : w.Carries base effect)
    (disk : Disk) :
    performEffect disk w base effect = (w, none) := by
  rcases hCarries with ⟨name, a, hAsset, hFind, hCarried⟩
  unfold Writer.performEffect
  simp only [hAsset, loadAsset, hFind, hCarried.putOn,
    stageAsset, Assoc.set_eq_self hFind]

/- A descriptor that was given an effect carries it. -/
theorem carries_of_performEffect
    (hPerform :
      Writer.performEffect disk w base effect = (next, none)) :
    next.Carries base effect := by
  rcases performEffect_cases disk w base effect with
    ⟨_, hUse⟩ | ⟨name, path, hAsset, rfl, hUse⟩
  · cases hPerform.symm.trans hUse
  · rcases hUse with
      ⟨_, _, hUse⟩ | ⟨_, _, _, _, hUse⟩ |
        ⟨a, doc, _, hApply, hUse⟩
    · cases hPerform.symm.trans hUse
    · cases hPerform.symm.trans hUse
    · cases hPerform.symm.trans hUse
      exact
        ⟨name, ⟨a.path, doc⟩, hAsset,
          Assoc.find?_set_self _ _ _,
          VisualEffect.isCarriedBy_of_apply hApply⟩

/- Staging a descriptor keeps an effect that it carries. -/
theorem Carries.stageAsset
    (hCarries : w.Carries base effect)
    {key : List String}
    {b : StagedAsset}
    (hKept :
      ∀ a,
        Assoc.find? key w.staging.assets = some a →
          effect.IsCarriedBy a.doc →
            effect.IsCarriedBy b.doc) :
    (w.stageAsset key b).Carries base effect := by
  rcases hCarries with ⟨name, a, hAsset, hFind, hCarried⟩
  by_cases hKey : (DataFile.asset w.dir name).components = key
  · subst hKey
    exact
      ⟨name, b, hAsset, Assoc.find?_set_self _ _ _,
        hKept a hFind hCarried⟩
  · exact
      ⟨name, a, hAsset,
        (Assoc.find?_set_of_ne hKey _ _).trans hFind, hCarried⟩

/- So does staging any edit. -/
theorem Carries.perform
    (hCarries : w.Carries base effect)
    (disk : Disk)
    (edit : Edit) :
    (perform disk w edit).1.Carries base effect := by
  cases edit with
  | rename target rule =>
      have hTarget := sameTarget_perform disk w (.rename target rule)
      have hAssets := assets_performRename disk w target rule
      unfold Carries
      rw [hTarget.dir, hTarget.catalog, Writer.perform, hAssets]
      exact hCarries
  | addEffect target other =>
      rw [Writer.perform]
      -- What is loaded is what is staged, if anything is.
      have hLoaded :
          ∀ {path a},
            loadAsset disk w path = .ok a →
              ∀ staged,
                Assoc.find? path.components w.staging.assets =
                    some staged →
                  staged = a := by
        intro path a hLoad staged hFind
        rcases loadAsset_eq_ok hLoad with hSame | ⟨hNew, _⟩
        · exact Option.some.inj (hFind.symm.trans hSame)
        · cases hNew.symm.trans hFind
      rcases performEffect_cases disk w target other with
        ⟨_, hUse⟩ | ⟨name, path, hAsset, rfl, hUse⟩
      · rw [hUse]
        exact hCarries
      · rcases hUse with
          ⟨_, _, hUse⟩ | ⟨a, _, hLoad, _, hUse⟩ |
            ⟨a, doc, hLoad, hApply, hUse⟩ <;>
          rw [hUse]
        · exact hCarries
        · apply hCarries.stageAsset
          intro staged hFind hCarried
          rwa [← hLoaded hLoad staged hFind]
        · apply hCarries.stageAsset
          intro staged hFind hCarried
          rw [hLoaded hLoad staged hFind] at hCarried
          exact hCarried.apply hApply

/-
  Effects on a descriptor: which of them fail, that these
  change nothing, and what the descriptor gains if none does.
  An effect that a writer has staged is staged again without a
  change, by the same rule or by a later one.
-/
theorem putAll_inTurn :
    (∀ doc done effect,
      VisualEffect.PutAfter doc done effect) ∧
      (∀ doc effects,
        (∀ done effect rest,
          effects = done ++ effect :: rest →
            ∃ next,
              effect.putOn.run
                  (VisualEffect.putAll done doc) =
                .ok () next) →
          match VisualEffect.entities? doc with
          | none =>
              effects = [] ∧
                VisualEffect.putAll effects doc = doc
          | some entities =>
              VisualEffect.HasGained doc entities
                (VisualEffect.missing entities effects)
                (VisualEffect.putAll effects doc)) ∧
      ∀ disk w base effect next,
        performEffect disk w base effect = (next, none) →
          ∀ other edits calls last,
            let later :=
              (performAll other next edits).1.writeEach calls
            performEffect last later base effect =
              (later, none) := by
  refine
    ⟨VisualEffect.putAfter,
      fun doc effects => VisualEffect.hasGained_putAll, ?_⟩
  intro disk w base effect next hPerform other edits calls last
  have hNext := carries_of_performEffect hPerform
  have hEdits :
      (performAll other next edits).1.Carries base effect :=
    performAll_preserves (P := fun w => w.Carries base effect)
      (fun _ edit hHolds => hHolds.perform other edit) hNext
      edits
  have hLater :=
    writeEach_preserves (P := fun w => w.Carries base effect)
      (fun disk _ edit hHolds => hHolds.perform disk edit) hEdits
      calls
  exact hLater.performEffect last

end Writer

end LootFilter
