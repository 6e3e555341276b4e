import LootFilter.Proofs.Evaluation.Listed
import LootFilter.Proofs.FirstPlaces

/-
  What the rule of a block means.

  A selection describes the properties read so far: the base
  types selected by name and by class are those that the
  properties list, each at its first place, and names and
  effects are those that were given.  Reading one more
  property keeps this, so it holds of the whole block.

  Main declarations:
    * `Selection.Describes`
    * `Selection.Describes.apply`
    * `Instruction.Means`
    * `Instruction.exists_describes_of_evaluate`
    * `Instruction.means_of_evaluate`
-/

namespace LootFilter

------------------------------------------------------------
-- Base Types Listed by Properties
------------------------------------------------------------

namespace Catalog

/-
  The base types that properties select by name, in the order
  of the properties, of their fragments and of the rows.
-/
def named
    (c : Catalog)
    (properties : List Property) : List String :=
  properties.flatMap fun p =>
    p.fragments.flatMap fun fragment =>
      c.matching fragment.1 fragment.2

/- Whether a row names a base type: a rune needs its code. -/
theorem mem_nameRows_iff
    {c : Catalog}
    {row : Entry} :
    row ∈ c.nameRows ↔
      row ∈ c.names ∨
        (row ∈ c.runes ∧ isRuneKey row.key = true) := by
  simp [nameRows]

/- The members of a class; a class without a set has none. -/
def members (c : Catalog) (k : ItemClass) : List String :=
  ((c.classBases k).getD BaseSet.empty).toList

/-
  The base types that properties select by class, in the order
  of the properties, of their classes and of the members.
-/
def classed
    (c : Catalog)
    (properties : List Property) : List String :=
  properties.flatMap fun p => p.classes.flatMap c.members

end Catalog

------------------------------------------------------------
-- Reading One Property
------------------------------------------------------------

namespace Selection

variable {c : Catalog} {verb : Verb} {s next : Selection}
variable {p : Property}

/- Taking a step that adds for each argument adds them all. -/
theorem eq_add_of_foldlM
    {add : Selection → List String → Selection}
    {step :
      Selection → List Char →
        Except FormatErrorKind Selection}
    {f : List Char → List String}
    (hAdd : ∀ s a b, add (add s a) b = add s (a ++ b))
    (hStep :
      ∀ s arg next,
        step s arg = .ok next → next = add s (f arg))
    {args : List (List Char)}
    (hSome : args ≠ [])
    (hFold : args.foldlM step s = .ok next) :
    next = add s (args.flatMap f) := by
  induction args generalizing s with
  | nil => exact absurd rfl hSome
  | cons arg args ih =>
      rw [List.foldlM_cons] at hFold
      rcases bind_eq_ok_iff.mp hFold with
        ⟨middle, hFirst, hRest⟩
      have hMiddle := hStep s arg middle hFirst
      cases args with
      | nil =>
          cases hRest
          simpa using hMiddle
      | cons other more =>
          rw [ih (List.cons_ne_nil _ _) hRest, hMiddle, hAdd]
          simp only [List.flatMap_cons]

/- Adding by name twice is adding both lists. -/
theorem addNamed_addNamed
    (s : Selection)
    (a b : List String) :
    (s.addNamed a).addNamed b = s.addNamed (a ++ b) := by
  simp [addNamed, BaseSet.extend_append]

/- Adding by class twice is adding both lists. -/
theorem addClassed_addClassed
    (s : Selection)
    (a b : List String) :
    (s.addClassed a).addClassed b =
      s.addClassed (a ++ b) := by
  simp [addClassed, BaseSet.extend_append]

/- A fragment adds the base types that it matches. -/
theorem eq_addNamed_of_addFragment
    (c : Catalog)
    (op : Option RelationalOp)
    (s : Selection)
    (fragment : List Char)
    (next : Selection)
    (hAdd : addFragment c op s fragment = .ok next) :
    next = s.addNamed (c.matching op fragment) := by
  unfold addFragment at hAdd
  split at hAdd
  · cases hAdd
  · rename_i hMatching
    cases hAdd
    rw [hMatching]

/- The members of the class that a name spells, if it does. -/
def membersOf (c : Catalog) (name : List Char) : List String :=
  match Keyword.find? ItemClass (String.ofList name) with
  | none => []
  | some k => c.members k

/- The name of a class adds its members. -/
theorem eq_addClassed_of_addClassName
    (c : Catalog)
    (s : Selection)
    (name : List Char)
    (next : Selection)
    (hAdd : addClassName c s name = .ok next) :
    next = s.addClassed (membersOf c name) := by
  unfold addClassName at hAdd
  unfold membersOf
  cases hFind : Keyword.find? ItemClass (String.ofList name) with
  | none =>
      rw [hFind] at hAdd
      cases hAdd
  | some k =>
      rw [hFind] at hAdd
      cases hAdd
      rfl

/- The members of the classes among some names. -/
theorem flatMap_membersOf
    (c : Catalog)
    (names : List (List Char)) :
    names.flatMap (membersOf c) =
      (names.filterMap fun name =>
        Keyword.find? ItemClass
          (String.ofList name)).flatMap c.members := by
  induction names with
  | nil => rfl
  | cons name names ih =>
      rw [List.flatMap_cons, ih, membersOf]
      cases hFind :
          Keyword.find? ItemClass (String.ofList name) with
      | none => simp [hFind]
      | some k => simp [hFind]

/- What a property by name adds. -/
theorem apply_baseType
    (hKind : p.kind = .baseType)
    (hApply : apply c verb s p = .ok next) :
    next =
      s.addNamed
        (p.fragments.flatMap fun fragment =>
          c.matching fragment.1 fragment.2) := by
  unfold apply at hApply
  rw [hKind] at hApply
  dsimp only at hApply
  rcases foldlM_of_feed hApply with ⟨hSome, hFold⟩
  have hNext :=
    eq_add_of_foldlM addNamed_addNamed
      (eq_addNamed_of_addFragment c _) hSome hFold
  rw [hNext, Property.fragments, hKind]
  simp only [List.flatMap_map]

/- What a property by class adds. -/
theorem apply_itemClass
    (hKind : p.kind = .itemClass)
    (hApply : apply c verb s p = .ok next) :
    next = s.addClassed (p.classes.flatMap c.members) := by
  unfold apply at hApply
  rw [hKind] at hApply
  dsimp only at hApply
  rcases foldlM_of_feed hApply with ⟨hSome, hFold⟩
  have hNext :=
    eq_add_of_foldlM addClassed_addClassed
      (eq_addClassed_of_addClassName c) hSome hFold
  rw [hNext, flatMap_membersOf, Property.classes, hKind]

/- What a template changes. -/
theorem apply_newName
    (hKind : p.kind = .newName)
    (hApply : apply c verb s p = .ok next) :
    ∃ template,
      p.template? = some template ∧
        next = { s with rename := some template } := by
  unfold apply at hApply
  rw [hKind] at hApply
  dsimp only at hApply
  unfold setName at hApply
  split at hApply
  · rcases bind_eq_ok_iff.mp hApply with
      ⟨⟨template, rest⟩, hRequired, hRest⟩
    rcases bind_eq_ok_iff.mp hRest with ⟨u, _, hDone⟩
    cases hDone
    refine ⟨String.ofList template, ?_, rfl⟩
    simp [Property.template?, hKind, all_of_required hRequired]
  · cases hApply

/- What a visual effect changes. -/
theorem apply_addVfx
    (hKind : p.kind = .addVfx)
    (hApply : apply c verb s p = .ok next) :
    ∃ effect,
      p.effect? = some effect ∧
        next = { s with vfx := s.vfx ++ [effect] } := by
  unfold apply at hApply
  rw [hKind] at hApply
  dsimp only at hApply
  unfold addEffect at hApply
  split at hApply
  · cases hApply
  · cases hApply
  · rename_i name rest hBare
    split at hApply
    · cases hApply
    · rename_i effect hFind
      rcases bind_eq_ok_iff.mp hApply with ⟨u, _, hDone⟩
      cases hDone
      refine ⟨effect, ?_, rfl⟩
      simp [Property.effect?, hKind, hBare, hFind]

------------------------------------------------------------
-- Reading All Properties
------------------------------------------------------------

/- A selection says what some properties list. -/
structure Describes
    (c : Catalog)
    (properties : List Property)
    (s : Selection) : Prop where
  named :
    s.named.getD BaseSet.empty =
      BaseSet.ofList (c.named properties)
  named_isSome :
    s.named.isSome = true ↔
      ∃ p ∈ properties, p.kind = .baseType
  classed :
    s.classed.getD BaseSet.empty =
      BaseSet.ofList (c.classed properties)
  classed_isSome :
    s.classed.isSome = true ↔
      ∃ p ∈ properties, p.kind = .itemClass
  rename :
    s.rename =
      (properties.filterMap (·.template?)).getLast?
  vfx : s.vfx = properties.filterMap (·.effect?)
  read :
    ∀ p ∈ properties,
      (p.kind = .newName → p.template?.isSome) ∧
        (p.kind = .addVfx → p.effect?.isSome)

/- Before any property, nothing is selected. -/
theorem describes_empty (c : Catalog) :
    Describes c [] Selection.empty where
  named := rfl
  named_isSome := by simp [Selection.empty]
  classed := rfl
  classed_isSome := by simp [Selection.empty]
  rename := rfl
  vfx := rfl
  read := by simp

/- Reading one more property adds what it lists. -/
theorem Describes.apply
    {properties : List Property}
    (hDescribes : Describes c properties s)
    (hApply : Selection.apply c verb s p = .ok next) :
    Describes c (properties ++ [p]) next := by
  rcases hDescribes with
    ⟨hNamed, hNamedSome, hClassed, hClassedSome, hRename,
      hVfx, hRead⟩
  have hReadAll :
      (p.kind = .newName → p.template?.isSome) ∧
          (p.kind = .addVfx → p.effect?.isSome) →
        ∀ q ∈ properties ++ [p],
          (q.kind = .newName → q.template?.isSome) ∧
            (q.kind = .addVfx → q.effect?.isSome) := by
    intro hLast q hMem
    rcases List.mem_append.mp hMem with hOld | hNew
    · exact hRead q hOld
    · rw [List.mem_singleton] at hNew
      exact hNew ▸ hLast
  cases hKind : p.kind with
  | baseType =>
      have hNext := apply_baseType hKind hApply
      subst hNext
      constructor
      · simp [addNamed, hNamed, Catalog.named,
          BaseSet.ofList_append]
      · simp [addNamed, hKind]
      · simp [addNamed, hClassed, Catalog.classed,
          Property.classes, hKind]
      · simp [addNamed, hClassedSome, hKind]
      · simp [addNamed, hRename, Property.template?, hKind]
      · simp [addNamed, hVfx, Property.effect?, hKind]
      · exact hReadAll (by simp [hKind])
  | itemClass =>
      have hNext := apply_itemClass hKind hApply
      subst hNext
      constructor
      · simp [addClassed, hNamed, Catalog.named,
          Property.fragments, hKind]
      · simp [addClassed, hNamedSome, hKind]
      · simp [addClassed, hClassed, Catalog.classed,
          BaseSet.ofList_append]
      · simp [addClassed, hKind]
      · simp [addClassed, hRename, Property.template?, hKind]
      · simp [addClassed, hVfx, Property.effect?, hKind]
      · exact hReadAll (by simp [hKind])
  | newName =>
      rcases apply_newName hKind hApply with
        ⟨template, hTemplate, hNext⟩
      subst hNext
      constructor
      · simp [hNamed, Catalog.named, Property.fragments,
          hKind]
      · simp [hNamedSome, hKind]
      · simp [hClassed, Catalog.classed, Property.classes,
          hKind]
      · simp [hClassedSome, hKind]
      · simp [hTemplate]
      · simp [hVfx, Property.effect?, hKind]
      · exact hReadAll (by simp [hKind, hTemplate])
  | addVfx =>
      rcases apply_addVfx hKind hApply with
        ⟨effect, hEffect, hNext⟩
      subst hNext
      constructor
      · simp [hNamed, Catalog.named, Property.fragments,
          hKind]
      · simp [hNamedSome, hKind]
      · simp [hClassed, Catalog.classed, Property.classes,
          hKind]
      · simp [hClassedSome, hKind]
      · simp [hRename, Property.template?, hKind]
      · simp [hVfx, hEffect]
      · exact hReadAll (by simp [hKind, hEffect])
  | playSound =>
      unfold Selection.apply at hApply
      rw [hKind] at hApply
      cases hApply

/- Reading properties adds what they list. -/
theorem Describes.foldlM
    {properties more : List Property}
    (hDescribes : Describes c properties s)
    (hFold :
      more.foldlM (Selection.apply c verb) s = .ok next) :
    Describes c (properties ++ more) next := by
  induction more generalizing s properties with
  | nil =>
      cases hFold
      simpa using hDescribes
  | cons p more ih =>
      rw [List.foldlM_cons] at hFold
      rcases bind_eq_ok_iff.mp hFold with
        ⟨middle, hApply, hRest⟩
      have hMore := ih (hDescribes.apply hApply) hRest
      rwa [List.append_assoc, List.singleton_append] at hMore

------------------------------------------------------------
-- Selected Base Types
------------------------------------------------------------

/- The base types that are selected in the end. -/
def chosen (s : Selection) : List String :=
  (s.bases.getD BaseSet.empty).toList

/- They are the targets of the rule. -/
theorem targets_toRule
    (s : Selection)
    (block : Instruction) :
    (s.toRule block).targets = s.chosen := by
  unfold chosen Rule.targets toRule
  cases s.bases <;> rfl

/- Without a selection there are none at all. -/
theorem bases_eq_none_iff :
    s.bases = none ↔
      ¬ s.named.isSome = true ∧ ¬ s.classed.isSome = true := by
  unfold bases
  cases s.named <;> cases s.classed <;> simp

/- A base type has to be in each of the sets that are given. -/
theorem mem_chosen_iff
    {base : String}
    (hSome : s.bases ≠ none) :
    base ∈ s.chosen ↔
      (¬ s.named.isSome = true ∨
          base ∈ (s.named.getD BaseSet.empty).toList) ∧
        (¬ s.classed.isSome = true ∨
          base ∈ (s.classed.getD BaseSet.empty).toList) := by
  unfold chosen
  unfold bases at hSome ⊢
  cases hNamed : s.named with
  | none =>
      cases hClassed : s.classed with
      | none => simp [hNamed, hClassed] at hSome
      | some classed => simp
  | some named =>
      cases hClassed : s.classed with
      | none => simp
      | some classed => simp [BaseSet.restrict, BaseSet.mem_def]

/- Base types selected by name stay in their order. -/
theorem chosen_sublist_named
    (hNamed : s.named.isSome = true) :
    s.chosen.Sublist
      (s.named.getD BaseSet.empty).toList := by
  rcases Option.isSome_iff_exists.mp hNamed with
    ⟨named, hSet⟩
  unfold chosen bases
  rw [hSet]
  cases s.classed with
  | none => exact List.Sublist.refl _
  | some classed => exact List.filter_sublist

/- So do those selected by class alone. -/
theorem chosen_sublist_classed
    (hNamed : ¬ s.named.isSome = true) :
    s.chosen.Sublist
      (s.classed.getD BaseSet.empty).toList := by
  rw [Option.not_isSome_iff_eq_none] at hNamed
  unfold chosen bases
  rw [hNamed]
  cases s.classed with
  | none => exact List.Sublist.refl _
  | some classed => exact List.Sublist.refl _

end Selection

------------------------------------------------------------
-- Rules of Blocks
------------------------------------------------------------

/-
  Whether a name matches a fragment: being the same text or
  having it as a part.
-/
theorem Entry.matches_iff
    {row : Entry}
    {op : Option RelationalOp}
    {fragment : List Char} :
    row.Matches op fragment = true ↔
      (op = some .equal ∧ row.name.toList = fragment) ∨
        (op = none ∧ fragment <:+: row.name.toList) := by
  unfold Matches
  rcases op with _ | op
  · simp [Text.occursIn_iff]
  · cases op
    simp

namespace Instruction

/- Whether a block has a property of a kind. -/
def Has (block : Instruction) (kind : PropertyKind) : Prop :=
  ∃ p ∈ block.properties, p.kind = kind

/-
  Whether a block selects a base type by name: a row for it
  matches a fragment of a property.
-/
def Names
    (c : Catalog)
    (block : Instruction)
    (base : String) : Prop :=
  ∃ p ∈ block.properties, ∃ op fragment,
    (op, fragment) ∈ p.fragments ∧
      ∃ row : Entry,
        (row ∈ c.names ∨
            (row ∈ c.runes ∧ isRuneKey row.key = true)) ∧
          row.key = base ∧
          ((op = some .equal ∧ row.name.toList = fragment) ∨
            (op = none ∧ fragment <:+: row.name.toList))

/-
  Whether a block selects a base type by class: it belongs to
  a class of a property.
-/
def Classes
    (c : Catalog)
    (block : Instruction)
    (base : String) : Prop :=
  ∃ p ∈ block.properties, ∃ k ∈ p.classes, ∃ members,
    c.classBases k = some members ∧ base ∈ members

/-
  What a rule has to say to be the meaning of a block.  Its
  targets are in the order in which they are first listed.
-/
structure Means
    (c : Catalog)
    (block : Instruction)
    (rule : Rule) : Prop where
  unselective :
    rule.baseTypes = none ↔
      ¬ block.Has .baseType ∧ ¬ block.Has .itemClass
  target :
    rule.baseTypes ≠ none →
      ∀ base,
        base ∈ rule.targets ↔
          (¬ block.Has .baseType ∨ block.Names c base) ∧
            (¬ block.Has .itemClass ∨ block.Classes c base)
  distinct : rule.targets.Nodup
  namedOrder :
    block.Has .baseType →
      rule.targets.Pairwise fun a b =>
        (c.named block.properties).idxOf a <
          (c.named block.properties).idxOf b
  classedOrder :
    ¬ block.Has .baseType →
      rule.targets.Pairwise fun a b =>
        (c.classed block.properties).idxOf a <
          (c.classed block.properties).idxOf b
  effects : rule.vfx = block.properties.filterMap (·.effect?)
  template :
    rule.rename =
      (block.properties.filterMap (·.template?)).getLast?
  read :
    ∀ p ∈ block.properties,
      (p.kind = .newName → p.template?.isSome) ∧
        (p.kind = .addVfx → p.effect?.isSome)

variable {c : Catalog} {block : Instruction} {base : String}

/- Being listed by name is being selected by name. -/
theorem mem_named_iff :
    base ∈ c.named block.properties ↔ block.Names c base := by
  simp only [Catalog.named, Catalog.matching, Names,
    List.mem_flatMap, List.mem_map, List.mem_filter,
    Catalog.mem_nameRows_iff, Entry.matches_iff, Prod.exists]
  constructor
  · rintro ⟨p, hP, op, fragment, hFragment, row,
      ⟨hRow, hMatches⟩, hKey⟩
    exact
      ⟨p, hP, op, fragment, hFragment, row, hRow, hKey,
        hMatches⟩
  · rintro ⟨p, hP, op, fragment, hFragment, row, hRow, hKey,
      hMatches⟩
    exact
      ⟨p, hP, op, fragment, hFragment, row,
        ⟨hRow, hMatches⟩, hKey⟩

/- Being listed by class is being selected by class. -/
theorem mem_classed_iff :
    base ∈ c.classed block.properties ↔
      block.Classes c base := by
  have hMembers : ∀ k,
      base ∈ c.members k ↔
        ∃ members,
          c.classBases k = some members ∧ base ∈ members := by
    intro k
    unfold Catalog.members
    cases c.classBases k with
    | none => simp [BaseSet.empty]
    | some members => simp [BaseSet.mem_def]
  simp only [Catalog.classed, Classes, List.mem_flatMap,
    hMembers]

/- The rule of a described selection is the meaning. -/
theorem means_of_describes
    {s : Selection}
    (hDescribes :
      Selection.Describes c block.properties s) :
    Means c block (s.toRule block) := by
  have hNamedHas : s.named.isSome = true ↔ block.Has .baseType :=
    hDescribes.named_isSome
  have hClassedHas :
      s.classed.isSome = true ↔ block.Has .itemClass :=
    hDescribes.classed_isSome
  have hTargets := s.targets_toRule block
  constructor
  · rw [← hNamedHas, ← hClassedHas]
    exact Selection.bases_eq_none_iff
  · intro hSome base
    rw [hTargets, Selection.mem_chosen_iff hSome, hNamedHas,
      hClassedHas, hDescribes.named, hDescribes.classed,
      BaseSet.mem_toList_ofList, BaseSet.mem_toList_ofList,
      mem_named_iff, mem_classed_iff]
  · exact Rule.nodup_targets _
  · intro hHas
    have hSublist :=
      Selection.chosen_sublist_named (hNamedHas.mpr hHas)
    rw [hTargets]
    rw [hDescribes.named] at hSublist
    exact (BaseSet.pairwise_ofList _).sublist hSublist
  · intro hHas
    have hSublist :=
      Selection.chosen_sublist_classed
        (fun hNamed => hHas (hNamedHas.mp hNamed))
    rw [hTargets]
    rw [hDescribes.classed] at hSublist
    exact (BaseSet.pairwise_ofList _).sublist hSublist
  · exact hDescribes.vfx
  · exact hDescribes.rename
  · exact hDescribes.read

/- The rule of a block is that of a described selection. -/
theorem exists_describes_of_evaluate
    {rule : Rule}
    (hEvaluate : block.evaluate c = .ok rule) :
    ∃ s,
      Selection.Describes c block.properties s ∧
        s.toRule block = rule := by
  rcases evaluate_eq_ok_iff.mp hEvaluate with
    ⟨s, hSelect, hRule⟩
  refine ⟨s, ?_, hRule⟩
  simpa using (Selection.describes_empty c).foldlM hSelect

/- The rule of a block is its meaning. -/
theorem means_of_evaluate
    {rule : Rule}
    (hEvaluate : block.evaluate c = .ok rule) :
    Means c block rule := by
  unfold evaluate at hEvaluate
  cases hSelect : block.select c with
  | error e => simp [hSelect] at hEvaluate
  | ok s =>
      simp only [hSelect, Except.ok.injEq] at hEvaluate
      subst hEvaluate
      apply means_of_describes
      simpa using
        (Selection.describes_empty c).foldlM hSelect

/- A catalog with two helmets and a rune. -/
def capCatalog : Catalog :=
  ((((Catalog.empty.addName ⟨"cap", "Cap"⟩).addName
    ⟨"skp", "War Cap"⟩).addRune ⟨"r01", "El Cap"⟩).addClass
      .helmet ["skp", "cap"])

/- A block that selects by name and by class. -/
def capBlock : Instruction :=
  ⟨1, .renameItem,
    [ ⟨.itemClass, "Helmet"⟩,
      ⟨.baseType, "\"War Cap\" Cap"⟩,
      ⟨.newName, "Hat"⟩,
      ⟨.addVfx, "Beam"⟩,
      ⟨.newName, "\"My Cap\""⟩ ]⟩

/- The first match of each base type tells the order. -/
theorem means_of_evaluate_cap :
    ∃ rule,
      capBlock.evaluate capCatalog = .ok rule ∧
        rule.targets = ["skp", "cap"] ∧
        Means capCatalog capBlock rule := by
  have hEvaluate :
      capBlock.evaluate capCatalog =
        .ok
          ⟨1, .renameItem, some (BaseSet.ofList ["skp", "cap"]),
            some "My Cap", [.beam]⟩ := by
    decide +kernel
  exact ⟨_, hEvaluate, rfl, means_of_evaluate hEvaluate⟩

end Instruction

end LootFilter
