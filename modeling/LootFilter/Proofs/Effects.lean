import LootFilter.Effect
import LootFilter.Proofs.FirstPlaces
import LootFilter.Proofs.Outcome

/-
  What a list of visual effects makes of a descriptor.

  The entities of the effects that the descriptor lacks are
  put behind its own, each once, and the particles of the beam
  are listed if the beam is one of these effects.  So whether
  the effects can be put there does not depend on their order,
  and neither does the result but for that of the entities.

  Main declarations:
    * `VisualEffect.applyAll`
    * `VisualEffect.missing`
    * `VisualEffect.withEffects`
    * `VisualEffect.applyAll_eq_ok_iff`
    * `VisualEffect.exists_applyAll_iff`
    * `VisualEffect.AlikeButOrder`
-/

namespace LootFilter

open Json (Value)

------------------------------------------------------------
-- Members of Objects
------------------------------------------------------------

namespace Assoc

variable {κ α : Type} [DecidableEq κ]
variable {j k : κ} {a b : α} {m : Assoc κ α}

/- Giving a key the value that it has changes nothing. -/
theorem set_eq_self
    (hFind : find? k m = some a) :
    set k a m = m := by
  induction m with
  | nil => cases hFind
  | cons entry rest ih =>
      obtain ⟨i, c⟩ := entry
      unfold find? at hFind
      unfold set
      split at hFind
      · rename_i hKey
        cases hFind
        rw [if_pos hKey]
      · rename_i hKey
        rw [if_neg hKey, ih hFind]

/- Of two values given to a key, the later one counts. -/
theorem set_set (k : κ) (a b : α) (m : Assoc κ α) :
    set k a (set k b m) = set k a m := by
  induction m with
  | nil => simp [set]
  | cons entry rest ih =>
      obtain ⟨i, c⟩ := entry
      by_cases hKey : i = k
      · simp [set, hKey]
      · simp [set, hKey, ih]

/- Two keys, one of which is there, get values in any order. -/
theorem set_comm
    (hNe : j ≠ k)
    (hKey : j ∈ keys m)
    (a b : α) :
    set j a (set k b m) = set k b (set j a m) := by
  induction m with
  | nil => cases hKey
  | cons entry rest ih =>
      obtain ⟨i, c⟩ := entry
      by_cases hJ : i = j
      · subst hJ
        simp [set, hNe]
      · have hRest : j ∈ keys rest := by
          simpa [keys, Ne.symm hJ] using hKey
        by_cases hK : i = k
        · subst hK
          simp [set, hJ]
        · simp [set, hJ, hK, ih hRest]

end Assoc

namespace Json.Value

variable {name other : String} {v a b x : Value}

/- Only an object has members. -/
theorem exists_of_member?
    (hMember : v.member? name = some a) :
    ∃ members,
      v = .object members ∧
        Assoc.find? name members = some a := by
  cases v with
  | object members => exact ⟨members, rfl, hMember⟩
  | _ => cases hMember

/- A member of an object gets a value. -/
theorem member?_setMember_self
    (hMember : v.member? other = some x)
    (name : String)
    (a : Value) :
    (v.setMember name a).member? name = some a := by
  rcases exists_of_member? hMember with ⟨members, rfl, _⟩
  exact Assoc.find?_set_self name a members

/- The other members keep their values. -/
theorem member?_setMember_of_ne
    (hNe : other ≠ name)
    (v a : Value) :
    (v.setMember name a).member? other = v.member? other := by
  cases v with
  | object members => exact Assoc.find?_set_of_ne hNe a members
  | _ => rfl

/- Giving a member the value that it has changes nothing. -/
theorem setMember_eq_self
    (hMember : v.member? name = some a) :
    v.setMember name a = v := by
  rcases exists_of_member? hMember with ⟨members, rfl, hFind⟩
  exact congrArg Value.object (Assoc.set_eq_self hFind)

/- Of two values given to a member, the later one counts. -/
theorem setMember_setMember (v a b : Value) (name : String) :
    (v.setMember name b).setMember name a =
      v.setMember name a := by
  cases v with
  | object members =>
      exact congrArg Value.object (Assoc.set_set name a b members)
  | _ => rfl

/- Two members, one there, get values in any order. -/
theorem setMember_comm
    (hNe : name ≠ other)
    (hMember : v.member? name = some x)
    (a b : Value) :
    (v.setMember other b).setMember name a =
      (v.setMember name a).setMember other b := by
  rcases exists_of_member? hMember with ⟨members, rfl, hFind⟩
  have hKey : name ∈ Assoc.keys members :=
    List.mem_map_of_mem (Assoc.mem_of_find?_eq_some hFind)
  exact
    congrArg Value.object (Assoc.set_comm hNe hKey a b)

end Json.Value

namespace VisualEffect

variable {effect : VisualEffect} {effects : List VisualEffect}
variable {entities : List Value} {doc result : Value}

------------------------------------------------------------
-- Entities
------------------------------------------------------------

/- Whether one of some entities is that of an effect. -/
def isIn
    (effect : VisualEffect)
    (entities : List Value) : Bool :=
  entities.any fun e =>
    e.memberText? "name" == some effect.entityName

/- The entities of different effects have different names. -/
theorem entityName_injective :
    Function.Injective entityName := by
  intro a b hName
  cases a <;> cases b <;>
    first | rfl | exact absurd hName (by decide)

/- The entity of an effect has its name. -/
theorem memberText?_entity (effect : VisualEffect) :
    effect.entity.memberText? "name" =
      some effect.entityName := by
  cases effect <;> rfl

/- With the entities of effects, exactly these are added. -/
theorem isIn_append_map
    (effect : VisualEffect)
    (entities : List Value)
    (effects : List VisualEffect) :
    effect.isIn (entities ++ effects.map entity) = true ↔
      effect.isIn entities = true ∨ effect ∈ effects := by
  have hName :
      (∃ other ∈ effects,
          other.entity.memberText? "name" =
            some effect.entityName) ↔
        effect ∈ effects := by
    constructor
    · rintro ⟨other, hMem, hEq⟩
      rw [memberText?_entity, Option.some.injEq] at hEq
      rwa [entityName_injective hEq] at hMem
    · intro hMem
      exact ⟨effect, hMem, memberText?_entity effect⟩
  simp only [isIn, List.any_append, Bool.or_eq_true,
    List.any_eq_true, List.mem_map, beq_iff_eq,
    exists_exists_and_eq_and, hName]

/-
  The effects of a list whose entities are missing, in the
  order in which they first occur.
-/
def missing
    (entities : List Value)
    (effects : List VisualEffect) : List VisualEffect :=
  (effects.filter fun effect =>
    !effect.isIn entities).eraseDups

/- They are effects of the list, and missing. -/
theorem mem_missing_iff :
    effect ∈ missing entities effects ↔
      effect ∈ effects ∧ effect.isIn entities = false := by
  simp [missing, List.mem_eraseDups]

/- Each of them is missing just once. -/
theorem nodup_missing
    (entities : List Value)
    (effects : List VisualEffect) :
    (missing entities effects).Nodup :=
  nodup_eraseDups _

/- One more effect may be missing as well. -/
theorem missing_concat
    (entities : List Value)
    (effects : List VisualEffect)
    (effect : VisualEffect) :
    missing entities (effects ++ [effect]) =
      if effect.isIn entities = true ∨
          effect ∈ missing entities effects then
        missing entities effects
      else
        missing entities effects ++ [effect] := by
  rw [missing, List.filter_append]
  cases hIn : effect.isIn entities with
  | true => simp [hIn, missing]
  | false =>
      simp only [hIn, Bool.not_false, List.filter_cons_of_pos,
        List.filter_nil, Bool.false_eq_true, false_or, missing,
        List.mem_eraseDups]
      exact eraseDups_concat _ effect

------------------------------------------------------------
-- One Effect
------------------------------------------------------------

/- Entities are an array among the members. -/
theorem entities?_eq_some_iff :
    entities? doc = some entities ↔
      doc.member? "entities" = some (.array entities) := by
  unfold entities?
  cases doc.member? "entities" with
  | none => simp
  | some v => cases v <;> simp [Value.items?]

/-
  The descriptor with the particles of the beam listed, if it
  lists particles at all.
-/
def withParticles (doc : Value) : Value :=
  (pushParticles doc).toOption.getD doc

/- They can be listed where there is a list. -/
theorem pushParticles_eq_ok_iff :
    pushParticles doc = .ok result ↔
      particleList? doc ≠ none ∧ result = withParticles doc := by
  unfold withParticles pushParticles
  cases hDependencies : doc.member? "dependencies" with
  | none => simp [particleList?, hDependencies]
  | some dependencies =>
      cases particleList? doc with
      | none => simp
      | some list => simp [Except.toOption, eq_comm]

/- Other members do not matter to the list. -/
theorem particleList?_setEntities (doc a : Value) :
    particleList? (doc.setMember "entities" a) =
      particleList? doc := by
  unfold particleList?
  rw [Value.member?_setMember_of_ne (by decide)]

/- New entities and listed particles do not meet. -/
theorem withParticles_setEntities (doc a : Value) :
    withParticles (doc.setMember "entities" a) =
      (withParticles doc).setMember "entities" a := by
  unfold withParticles pushParticles
  rw [particleList?_setEntities,
    Value.member?_setMember_of_ne (by decide)]
  cases hDependencies : doc.member? "dependencies" with
  | none => rfl
  | some dependencies =>
      cases particleList? doc with
      | none => rfl
      | some list =>
          exact
            Value.setMember_comm (by decide) hDependencies _ a

/- Listing particles leaves the entities alone. -/
theorem member?_withParticles (doc : Value) :
    (withParticles doc).member? "entities" =
      doc.member? "entities" := by
  unfold withParticles pushParticles
  cases doc.member? "dependencies" with
  | none => rfl
  | some dependencies =>
      cases particleList? doc with
      | none => rfl
      | some list =>
          exact Value.member?_setMember_of_ne (by decide) doc _

/-
  The descriptor with the entities of effects behind its own,
  and the particles of the beam if it is one of them.
-/
def withEffects
    (doc : Value)
    (entities : List Value)
    (effects : List VisualEffect) : Value :=
  let ready :=
    if .beam ∈ effects then withParticles doc else doc
  ready.setMember "entities"
    (.array (entities ++ effects.map entity))

/- Without effects it is what it was. -/
theorem withEffects_nil
    (hEntities : entities? doc = some entities) :
    withEffects doc entities [] = doc := by
  have hMember := entities?_eq_some_iff.mp hEntities
  simpa [withEffects] using Value.setMember_eq_self hMember

/- It has the entities that were put there. -/
theorem entities?_withEffects
    (hEntities : entities? doc = some entities)
    (effects : List VisualEffect) :
    entities? (withEffects doc entities effects) =
      some (entities ++ effects.map entity) := by
  have hMember := entities?_eq_some_iff.mp hEntities
  rw [entities?_eq_some_iff]
  unfold withEffects
  dsimp only
  split
  · rw [← member?_withParticles] at hMember
    exact Value.member?_setMember_self hMember _ _
  · exact Value.member?_setMember_self hMember _ _

/- A descriptor without entities is refused, as it is. -/
theorem run_putOn_of_none
    (hEntities : entities? doc = none) :
    effect.putOn.run doc = .error .noEntities doc := by
  simp [putOn, hEntities]

/- Listing particles changes nothing if it fails. -/
theorem run_listParticles (doc : Value) :
    listParticles.run doc =
      match pushParticles doc with
      | .error fault => .error fault doc
      | .ok ready => .ok () ready :=
  rfl

/- The entity is listed behind those that are there. -/
theorem run_listEntity
    (hEntities : entities? doc = some entities) :
    effect.listEntity.run doc =
      .ok () (pushEntity doc entities effect) := by
  simp [listEntity, hEntities]

/- Listing particles keeps the list of entities there is. -/
theorem entities?_of_pushParticles
    (hEntities : entities? doc = some entities)
    (hPush : pushParticles doc = .ok result) :
    entities? result = some entities := by
  rcases pushParticles_eq_ok_iff.mp hPush with ⟨_, rfl⟩
  rw [entities?_eq_some_iff] at hEntities ⊢
  rw [member?_withParticles, hEntities]

/-
  What the steps of an effect come to: nothing is changed
  before the last step that can fail.
-/
theorem run_putOn
    (hEntities : entities? doc = some entities) :
    effect.putOn.run doc =
      if effect.isIn entities = true then
        .ok () doc
      else if effect = .beam then
        match pushParticles doc with
        | .error fault => .error fault doc
        | .ok ready =>
            .ok () (pushEntity ready entities effect)
      else
        .ok () (pushEntity doc entities effect) := by
  unfold putOn
  simp only [EStateM.run_bind, EStateM.run_get, hEntities]
  by_cases hIn : effect.isIn entities = true
  · rw [if_pos hIn]
    unfold isIn at hIn
    rw [if_pos hIn, EStateM.run_pure]
  · rw [if_neg hIn]
    unfold isIn at hIn
    rw [if_neg hIn]
    by_cases hBeam : effect = .beam
    · rw [if_pos hBeam, if_pos hBeam, EStateM.run_bind,
        run_listParticles]
      cases hPush : pushParticles doc with
      | error fault => rfl
      | ok ready =>
          -- The entity goes to the list of the changed descriptor.
          exact
            run_listEntity
              (entities?_of_pushParticles hEntities hPush)
    · rw [if_neg hBeam, if_neg hBeam, run_listEntity hEntities]

/- A descriptor that refuses an effect is left as it was. -/
theorem eq_of_run_putOn
    {fault : AssetFault}
    (hPut : effect.putOn.run doc = .error fault result) :
    result = doc := by
  cases hEntities : entities? doc with
  | none =>
      rw [run_putOn_of_none hEntities] at hPut
      cases hPut
      rfl
  | some entities =>
      rw [run_putOn hEntities] at hPut
      split at hPut
      · cases hPut
      · split at hPut
        · split at hPut
          · cases hPut
            rfl
          · cases hPut
        · cases hPut

/- An effect gives a descriptor if it is put there. -/
theorem apply_eq_ok_iff_putOn :
    effect.apply doc = .ok result ↔
      effect.putOn.run doc = .ok () result := by
  unfold apply
  cases effect.putOn.run doc <;> simp

/- Otherwise the descriptor is what it was. -/
theorem apply_eq_error_iff_putOn
    {fault : AssetFault} :
    effect.apply doc = .error fault ↔
      effect.putOn.run doc = .error fault doc := by
  unfold apply
  cases hPut : effect.putOn.run doc with
  | ok _ result => simp
  | error found result =>
      rw [eq_of_run_putOn hPut]
      simp

/-
  An effect is put on a descriptor that has its entity, or
  that lists particles if the effect is the beam.
-/
theorem apply_eq_ok_iff
    (hEntities : entities? doc = some entities) :
    effect.apply doc = .ok result ↔
      if effect.isIn entities = true then
        result = doc
      else
        (effect = .beam → particleList? doc ≠ none) ∧
          result = withEffects doc entities [effect] := by
  have hUnfold :
      effect.apply doc =
        if effect.isIn entities = true then
          .ok doc
        else if effect = .beam then
          (pushParticles doc).map
            (pushEntity · entities effect)
        else
          .ok (pushEntity doc entities effect) := by
    unfold apply
    rw [run_putOn hEntities]
    by_cases hIn : effect.isIn entities = true
    · rw [if_pos hIn, if_pos hIn]
    · rw [if_neg hIn, if_neg hIn]
      by_cases hBeam : effect = .beam
      · rw [if_pos hBeam, if_pos hBeam]
        cases pushParticles doc <;> rfl
      · rw [if_neg hBeam, if_neg hBeam]
  rw [hUnfold]
  by_cases hIn : effect.isIn entities = true
  · rw [if_pos hIn, if_pos hIn, Except.ok.injEq, eq_comm]
  · rw [if_neg hIn, if_neg hIn]
    by_cases hBeam : effect = .beam
    · subst hBeam
      rw [if_pos rfl, map_eq_ok_iff]
      simp only [pushParticles_eq_ok_iff]
      simp [withEffects, pushEntity, eq_comm]
    · rw [if_neg hBeam]
      simp [hBeam, withEffects, pushEntity, Ne.symm hBeam,
        eq_comm]

/- A descriptor without entities takes no effect. -/
theorem apply_ne_ok
    (hEntities : entities? doc = none) :
    effect.apply doc ≠ .ok result := by
  unfold apply
  rw [run_putOn_of_none hEntities]
  exact nofun

/- One more effect is put behind those that were missing. -/
theorem withEffects_concat
    (hNew : effect ∉ effects) :
    withEffects (withEffects doc entities effects)
        (entities ++ effects.map entity) [effect] =
      withEffects doc entities (effects ++ [effect]) := by
  have hBehind :
      (entities ++ effects.map entity) ++ [effect].map entity =
        entities ++ (effects ++ [effect]).map entity := by
    simp
  unfold withEffects
  dsimp only
  rw [hBehind]
  by_cases hBeam : effect = .beam
  · subst hBeam
    rw [if_pos (by simp), if_neg hNew, if_pos (by simp),
      withParticles_setEntities,
      Value.setMember_setMember]
  · have hEach :
        VisualEffect.beam ∈ effects ++ [effect] ↔
          VisualEffect.beam ∈ effects := by
      simp [Ne.symm hBeam]
    rw [if_neg (by simp [Ne.symm hBeam])]
    simp only [hEach, Value.setMember_setMember]

------------------------------------------------------------
-- Many Effects
------------------------------------------------------------

/- Put effects on a descriptor, up to the first failure. -/
def applyAll
    (effects : List VisualEffect)
    (doc : Value) : Except AssetFault Value :=
  effects.foldlM (fun doc effect => effect.apply doc) doc

/- Without effects a descriptor is what it was. -/
@[simp]
theorem applyAll_nil (doc : Value) :
    applyAll [] doc = .ok doc :=
  rfl

/- Later effects are put on what the earlier ones gave. -/
theorem applyAll_append_eq_ok_iff
    {more : List VisualEffect} :
    applyAll (effects ++ more) doc = .ok result ↔
      ∃ middle,
        applyAll effects doc = .ok middle ∧
          applyAll more middle = .ok result := by
  simp [applyAll, List.foldlM_append, bind_eq_ok_iff]

/- A single effect is put on a descriptor by itself. -/
@[simp]
theorem applyAll_singleton
    (effect : VisualEffect)
    (doc : Value) :
    applyAll [effect] doc = effect.apply doc := by
  simp [applyAll]

/-
  Effects are put on a descriptor unless particles cannot be
  listed for a missing beam.  Those that are missing are there
  afterwards.
-/
theorem applyAll_eq_ok_iff
    (hEntities : entities? doc = some entities) :
    applyAll effects doc = .ok result ↔
      (.beam ∈ missing entities effects →
          particleList? doc ≠ none) ∧
        result =
          withEffects doc entities
            (missing entities effects) := by
  induction effects using List.reverseRecOn
    generalizing result with
  | nil =>
      simp [applyAll, missing, withEffects_nil hEntities,
        pure, Except.pure, eq_comm]
  | append_singleton effects effect ih =>
      have hMiddle :=
        entities?_withEffects hEntities
          (missing entities effects)
      have hParticles :
          effect ∉ missing entities effects →
            effect = .beam →
              particleList?
                  (withEffects doc entities
                    (missing entities effects)) =
                particleList? doc := by
        rintro hNew rfl
        rw [withEffects, if_neg hNew, particleList?_setEntities]
      rw [applyAll_append_eq_ok_iff, missing_concat]
      simp only [ih, applyAll_singleton, and_assoc, exists_and_left,
        exists_eq_left, apply_eq_ok_iff hMiddle,
        isIn_append_map]
      by_cases hThere :
          effect.isIn entities = true ∨
            effect ∈ missing entities effects
      · rw [if_pos hThere, if_pos hThere]
      · have hNew : effect ∉ missing entities effects :=
          fun hMem => hThere (Or.inr hMem)
        rw [if_neg hThere, if_neg hThere,
          withEffects_concat hNew, ← and_assoc]
        apply and_congr_left'
        -- The beam is missing already, or is the new effect.
        rw [List.mem_append, List.mem_singleton, or_imp,
          eq_comm (a := VisualEffect.beam)]
        apply and_congr_right'
        apply forall_congr'
        intro hBeam
        rw [hParticles hNew hBeam]

/-
  Effects can be put on a descriptor one after the other
  exactly if each of them can be put there at first.
-/
theorem exists_applyAll_iff
    (effects : List VisualEffect)
    (doc : Value) :
    (∃ result, applyAll effects doc = .ok result) ↔
      ∀ effect ∈ effects,
        ∃ result, effect.apply doc = .ok result := by
  cases hEntities : entities? doc with
  | none =>
      cases effects with
      | nil => simp [applyAll, pure, Except.pure]
      | cons effect effects =>
          constructor
          · rintro ⟨result, hApply⟩
            rcases bind_eq_ok_iff.mp hApply with
              ⟨middle, hFirst, _⟩
            exact absurd hFirst (apply_ne_ok hEntities)
          · intro hAll
            rcases hAll effect List.mem_cons_self with
              ⟨result, hFirst⟩
            exact absurd hFirst (apply_ne_ok hEntities)
  | some entities =>
      have hEach :
          ∀ effect : VisualEffect,
            (∃ result, effect.apply doc = .ok result) ↔
              (effect.isIn entities = false →
                effect = .beam → particleList? doc ≠ none) := by
        intro effect
        simp only [apply_eq_ok_iff hEntities]
        cases effect.isIn entities <;> simp
      simp only [applyAll_eq_ok_iff hEntities, hEach,
        mem_missing_iff]
      constructor
      · rintro ⟨_, hBeam, _⟩ effect hMem hMissing rfl
        exact hBeam ⟨hMem, hMissing⟩
      · intro hAll
        exact
          ⟨_, fun hBeam => hAll .beam hBeam.1 hBeam.2 rfl, rfl⟩

/- Other effects do not decide whether one can be put there. -/
theorem exists_apply_iff_of_applyAll
    (hApply : applyAll effects doc = .ok result) :
    (∃ last, effect.apply result = .ok last) ↔
      ∃ first, effect.apply doc = .ok first := by
  have hAll := (exists_applyAll_iff effects doc).mp ⟨_, hApply⟩
  have hMore := exists_applyAll_iff (effects ++ [effect]) doc
  rw [List.forall_mem_append, List.forall_mem_singleton]
    at hMore
  constructor
  · rintro ⟨last, hLast⟩
    have hBoth :=
      applyAll_append_eq_ok_iff.mpr
        ⟨result, hApply, (applyAll_singleton _ _).trans hLast⟩
    exact (hMore.mp ⟨last, hBoth⟩).2
  · intro hFirst
    rcases hMore.mpr ⟨hAll, hFirst⟩ with ⟨last, hBoth⟩
    rcases applyAll_append_eq_ok_iff.mp hBoth with
      ⟨middle, hMiddle, hLast⟩
    cases hApply.symm.trans hMiddle
    exact ⟨last, (applyAll_singleton _ _).symm.trans hLast⟩

/-
  Whether two descriptors are the same but for the order of
  what stands behind some entities.
-/
def AlikeButOrder
    (entities : List Value)
    (a b : Value) : Prop :=
  ∃ doc first second,
    List.Perm first second ∧
      a = Value.setMember doc "entities"
        (.array (entities ++ first)) ∧
      b = Value.setMember doc "entities"
        (.array (entities ++ second))

/- The order of effects decides that of the entities only. -/
theorem alikeButOrder_of_perm
    {others : List VisualEffect}
    {other : Value}
    (hPerm : effects.Perm others)
    (hEntities : entities? doc = some entities)
    (hApply : applyAll effects doc = .ok result)
    (hOther : applyAll others doc = .ok other) :
    AlikeButOrder entities result other := by
  have hMissing :
      (missing entities effects).Perm
        (missing entities others) := by
    rw [List.perm_ext_iff_of_nodup (nodup_missing _ _)
      (nodup_missing _ _)]
    intro effect
    rw [mem_missing_iff, mem_missing_iff, hPerm.mem_iff]
  have hFirst := (applyAll_eq_ok_iff hEntities).mp hApply
  have hSecond := (applyAll_eq_ok_iff hEntities).mp hOther
  rw [hFirst.2, hSecond.2]
  unfold withEffects
  simp only [← hMissing.mem_iff]
  exact ⟨_, _, _, hMissing.map entity, rfl, rfl⟩

end VisualEffect

end LootFilter
