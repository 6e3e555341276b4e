import LootFilter.Proofs.Evaluation.Failures
import LootFilter.Proofs.Evaluation.Meaning

/-
  Base types that are selected by name.

  A property by name can be read if its arguments can and each
  of them matches some row.  Under the operator a row has to
  be called exactly what an argument says, which it then has
  as a part.  So where a text can be read behind the operator,
  it can be read without, and selects no less.

  Main declarations:
    * `Property.byName`
    * `Selection.exists_apply_byName_iff`
    * `Catalog.matching_subset`
    * `Rule.Narrows`
    * `Instruction.exists_narrows`
-/

namespace LootFilter

------------------------------------------------------------
-- The Operator in Front
------------------------------------------------------------

namespace Argument

variable {cs : List Char}

/- A space in front of an argument is skipped. -/
theorem next_cons_space
    (optional : Bool)
    (cs : List Char) :
    next optional (' ' :: cs) = next optional cs :=
  rfl

/- So it is in front of a list of arguments. -/
theorem readList_cons_space
    (kind : PropertyKind)
    (cs : List Char) :
    readList kind (' ' :: cs) = readList kind cs := by
  unfold readList Selection.required
  rw [next_cons_space]

/- And the same arguments are listed. -/
theorem all_cons_space (cs : List Char) :
    all (' ' :: cs) = all cs := by
  rw [all, all]
  simp only [next_cons_space]

/- The operator is read where a space follows it. -/
theorem operator_equal (cs : List Char) :
    operator ("== ".toList ++ cs) = (some .equal, ' ' :: cs) :=
  rfl

/- Where the first token is another, there is none. -/
theorem operator_of_token_ne
    (hToken : token (Text.skipBlanks cs) ≠ "==".toList) :
    operator cs = (none, cs) := by
  have hNone :
      Keyword.find? RelationalOp
        (String.ofList (token (Text.skipBlanks cs))) = none := by
    apply Keyword.find?_eq_none_iff.mpr
    rintro ⟨⟩ hSame
    apply hToken
    rw [← String.toList_ofList (l := token _), ← hSame]
    rfl
  unfold operator
  dsimp only
  rw [hNone]

end Argument

------------------------------------------------------------
-- Reading a Property by Name
------------------------------------------------------------

/- The property that selects by name what a text says. -/
def Property.byName (raw : String) : Property :=
  ⟨.baseType, raw⟩

/-
  A property by name is read if its text is a list, and each
  argument of the list matches some row.
-/
theorem Selection.exists_apply_byName_iff
    {c : Catalog}
    {verb : Verb}
    {s : Selection}
    {raw : String}
    {op : Option RelationalOp}
    {cs : List Char}
    (hOperator : Argument.operator raw.toList = (op, cs)) :
    (∃ next,
        apply c verb s (Property.byName raw) = .ok next) ↔
      ∃ args,
        Argument.readList .baseType cs = ⟨args, none⟩ ∧
          ∀ arg ∈ args, c.matching op arg ≠ [] := by
  simp only [apply, Property.byName, hOperator,
    Argument.feed_eq]
  obtain ⟨args, failure⟩ := Argument.readList .baseType cs
  have hArgs :
      (∃ next,
          args.foldlM (addFragment c op) s = .ok next) ↔
        ∀ arg ∈ args, c.matching op arg ≠ [] := by
    rw [exists_foldlM_iff (isSettled_addFragment c op)]
    simp only [exists_addFragment_iff]
  simp only [Argument.Reading.feed, Argument.Reading.mk.injEq,
    bind_eq_ok_iff]
  cases failure with
  | none => simpa using hArgs
  | some kind => simp

/- The fragments of a property by name. -/
theorem Property.fragments_byName
    {raw : String}
    {op : Option RelationalOp}
    {cs : List Char}
    (hOperator : Argument.operator raw.toList = (op, cs)) :
    (byName raw).fragments =
      (Argument.all cs).map fun fragment => (op, fragment) := by
  simp only [fragments, byName, hOperator]

/- It lists nothing else. -/
@[simp]
theorem Property.listed_byName (raw : String) :
    (byName raw).kind = .baseType ∧
      (byName raw).classes = [] ∧
      (byName raw).template? = none ∧
      (byName raw).effect? = none :=
  ⟨rfl, rfl, rfl, rfl⟩

------------------------------------------------------------
-- Whole Names and Parts of Names
------------------------------------------------------------

/- A name that is a text has it as a part. -/
theorem Entry.matches_part
    (row : Entry)
    {fragment : List Char}
    (hMatches : row.Matches (some .equal) fragment = true) :
    row.Matches none fragment = true := by
  rcases Entry.matches_iff.mp hMatches with ⟨_, rfl⟩ | ⟨hNone, _⟩
  · exact Entry.matches_iff.mpr (Or.inr ⟨rfl, List.infix_refl _⟩)
  · cases hNone

/- So what is selected by it as a name is by it as a part. -/
theorem Catalog.matching_subset
    (c : Catalog)
    (fragment : List Char) :
    c.matching (some .equal) fragment ⊆
      c.matching none fragment := by
  intro key hKey
  simp only [matching, List.mem_map, List.mem_filter]
    at hKey ⊢
  rcases hKey with ⟨row, ⟨hRow, hMatches⟩, rfl⟩
  exact ⟨row, ⟨hRow, row.matches_part hMatches⟩, rfl⟩

/-
  Whether a rule says the same as another one about no other
  base types.
-/
structure Rule.Narrows (rule broad : Rule) : Prop where
  sourceLine : broad.sourceLine = rule.sourceLine
  verb : broad.verb = rule.verb
  rename : broad.rename = rule.rename
  vfx : broad.vfx = rule.vfx
  target : ∀ base ∈ rule.targets, base ∈ broad.targets

namespace Instruction

variable {c : Catalog} {block : Instruction}
variable {before after : List Property} {raw : String}

/- A text that does not start with the operator itself. -/
theorem operators_of_token_ne
    (hToken :
      Argument.token (Text.skipBlanks raw.toList) ≠
        "==".toList) :
    Argument.operator ("== " ++ raw).toList =
        (some .equal, ' ' :: raw.toList) ∧
      Argument.operator raw.toList = (none, raw.toList) := by
  refine ⟨?_, Argument.operator_of_token_ne hToken⟩
  rw [String.toList_append]
  exact Argument.operator_equal raw.toList

/- A property that is read as names is read as parts. -/
theorem exists_evaluate_only_byName
    (hToken :
      Argument.token (Text.skipBlanks raw.toList) ≠
        "==".toList)
    (hExact :
      ∃ rule,
        (block.only (Property.byName ("== " ++ raw))).evaluate c =
          .ok rule) :
    ∃ rule,
      (block.only (Property.byName raw)).evaluate c =
        .ok rule := by
  rcases operators_of_token_ne hToken with ⟨hEqual, hNone⟩
  rw [exists_rule_iff, select_only] at hExact ⊢
  rcases (Selection.exists_apply_byName_iff hEqual).mp hExact
    with ⟨args, hRead, hArgs⟩
  rw [Argument.readList_cons_space] at hRead
  apply (Selection.exists_apply_byName_iff hNone).mpr
  refine ⟨args, hRead, ?_⟩
  intro arg hMem hEmpty
  have hSubset := c.matching_subset arg
  rw [hEmpty, List.subset_nil] at hSubset
  exact hArgs arg hMem hSubset

/- What is named is named in part. -/
theorem Names.part_of_whole
    (hToken :
      Argument.token (Text.skipBlanks raw.toList) ≠
        "==".toList)
    {base : String}
    (hNames :
      (block.withProperties
        (before ++ Property.byName ("== " ++ raw) ::
          after)).Names c base) :
    (block.withProperties
      (before ++ Property.byName raw :: after)).Names c
        base := by
  rcases operators_of_token_ne hToken with ⟨hEqual, hNone⟩
  rcases hNames with
    ⟨p, hP, op, fragment, hFragment, row, hRow, hKey,
      hMatches⟩
  simp only [withProperties, List.mem_append,
    List.mem_cons] at hP
  rcases hP with hBefore | rfl | hAfter
  · exact
      ⟨p, by simp [withProperties, hBefore], op, fragment,
        hFragment, row, hRow, hKey, hMatches⟩
  · rw [Property.fragments_byName hEqual,
      Argument.all_cons_space, List.mem_map] at hFragment
    rcases hFragment with ⟨_, hListed, hPair⟩
    cases hPair
    have hInfix : fragment <:+: row.name.toList := by
      rcases hMatches with ⟨_, rfl⟩ | ⟨hOther, _⟩
      · exact List.infix_refl _
      · cases hOther
    have hPart :
        (none, fragment) ∈ (Property.byName raw).fragments := by
      rw [Property.fragments_byName hNone]
      exact List.mem_map_of_mem hListed
    exact
      ⟨Property.byName raw, by simp [withProperties], none,
        fragment, hPart, row, hRow, hKey, Or.inr ⟨rfl, hInfix⟩⟩
  · exact
      ⟨p, by simp [withProperties, hAfter], op, fragment,
        hFragment, row, hRow, hKey, hMatches⟩

/- What no property by name has, the others have. -/
theorem exists_mem_byName_iff
    {Q : Property → Prop}
    (hNot : ∀ text, ¬ Q (Property.byName text))
    (text : String) :
    (∃ p ∈ before ++ Property.byName text :: after, Q p) ↔
      ∃ p ∈ before ++ after, Q p := by
  simp only [List.mem_append, List.mem_cons, or_and_right,
    exists_or, exists_eq_left, hNot text, false_or]

/- Whether there is a class is not told by what is named. -/
theorem has_itemClass_byName (text other : String) :
    (block.withProperties
        (before ++ Property.byName text :: after)).Has
          .itemClass ↔
      (block.withProperties
        (before ++ Property.byName other :: after)).Has
          .itemClass := by
  have hNot :
      ∀ text, ¬ (Property.byName text).kind = .itemClass := by
    simp
  exact
    (exists_mem_byName_iff hNot text).trans
      (exists_mem_byName_iff hNot other).symm

/- Nor are the members of the classes. -/
theorem classes_byName (text other base : String) :
    (block.withProperties
        (before ++ Property.byName text :: after)).Classes c
          base ↔
      (block.withProperties
        (before ++ Property.byName other :: after)).Classes c
          base := by
  have hNot :
      ∀ text,
        ¬ ∃ k ∈ (Property.byName text).classes, ∃ members,
          c.classBases k = some members ∧ base ∈ members := by
    simp
  exact
    (exists_mem_byName_iff hNot text).trans
      (exists_mem_byName_iff hNot other).symm

/- A block with names is read with parts of names. -/
theorem exists_evaluate_byName
    (hToken :
      Argument.token (Text.skipBlanks raw.toList) ≠
        "==".toList)
    (hExact :
      ∃ rule,
        (block.withProperties
          (before ++ Property.byName ("== " ++ raw) ::
            after)).evaluate c = .ok rule) :
    ∃ broad,
      (block.withProperties
        (before ++ Property.byName raw :: after)).evaluate c =
          .ok broad := by
  rw [exists_evaluate_iff] at hExact ⊢
  simp only [withProperties, List.forall_mem_append,
    List.forall_mem_cons] at hExact ⊢
  exact
    ⟨hExact.1, exists_evaluate_only_byName hToken hExact.2.1,
      hExact.2.2⟩

/- The targets with names are targets with parts of names. -/
theorem mem_targets_byName
    {rule broad : Rule}
    (hToken :
      Argument.token (Text.skipBlanks raw.toList) ≠
        "==".toList)
    (hExact :
      Means c
        (block.withProperties
          (before ++ Property.byName ("== " ++ raw) :: after))
        rule)
    (hPart :
      Means c
        (block.withProperties
          (before ++ Property.byName raw :: after))
        broad)
    {base : String}
    (hTarget : base ∈ rule.targets) :
    base ∈ broad.targets := by
  have hNamed : ∀ text,
      (block.withProperties
        (before ++ Property.byName text :: after)).Has
          .baseType :=
    fun text =>
      ⟨Property.byName text, by simp [withProperties], rfl⟩
  have hExactSome : rule.baseTypes ≠ none :=
    fun hNone => (hExact.unselective.mp hNone).1 (hNamed _)
  have hPartSome : broad.baseTypes ≠ none :=
    fun hNone => (hPart.unselective.mp hNone).1 (hNamed _)
  rcases (hExact.target hExactSome base).mp hTarget with
    ⟨hNames, hClasses⟩
  apply (hPart.target hPartSome base).mpr
  constructor
  · right
    exact
      Names.part_of_whole hToken
        (hNames.resolve_left (not_not_intro (hNamed _)))
  · rwa [has_itemClass_byName raw ("== " ++ raw),
      classes_byName raw ("== " ++ raw)]

/-
  Selecting by whole names is narrower than by parts of names:
  a block that is resolved with the operator in front of a text
  is resolved without it, to a rule that says the same of no
  fewer base types.
-/
theorem exists_narrows
    {rule : Rule}
    (hToken :
      Argument.token (Text.skipBlanks raw.toList) ≠
        "==".toList)
    (hEvaluate :
      (block.withProperties
        (before ++ Property.byName ("== " ++ raw) ::
          after)).evaluate c = .ok rule) :
    ∃ broad,
      (block.withProperties
        (before ++ Property.byName raw :: after)).evaluate c =
          .ok broad ∧
        rule.Narrows broad := by
  rcases exists_evaluate_byName hToken ⟨rule, hEvaluate⟩ with
    ⟨broad, hBroad⟩
  refine ⟨broad, hBroad, ?_⟩
  rcases exists_describes_of_evaluate hEvaluate with
    ⟨s, hS, rfl⟩
  rcases exists_describes_of_evaluate hBroad with ⟨t, hT, rfl⟩
  have hExact := means_of_describes hS
  have hPart := means_of_describes hT
  -- What the two blocks list apart from names is the same.
  constructor
  · rfl
  · rfl
  · rw [hExact.template, hPart.template]
    simp only [withProperties, List.filterMap_append,
      List.filterMap_cons, Property.listed_byName]
  · rw [hExact.effects, hPart.effects]
    simp only [withProperties, List.filterMap_append,
      List.filterMap_cons, Property.listed_byName]
  · exact fun _ => mem_targets_byName hToken hExact hPart

/- A cap in a catalog of three: two are called caps in part. -/
theorem exists_narrows_cap :
    Argument.token (Text.skipBlanks "Cap".toList) ≠
        "==".toList ∧
      (capBlock.withProperties
        [Property.byName ("== " ++ "Cap")]).evaluate
          capCatalog =
        .ok ⟨1, .renameItem, some (BaseSet.ofList ["cap"]),
          none, []⟩ ∧
      ∃ broad,
        (capBlock.withProperties
          [Property.byName "Cap"]).evaluate capCatalog =
            .ok broad ∧
          broad.targets = ["cap", "skp", "r01"] ∧
          Rule.Narrows
            ⟨1, .renameItem, some (BaseSet.ofList ["cap"]),
              none, []⟩ broad := by
  have hToken :
      Argument.token (Text.skipBlanks "Cap".toList) ≠
        "==".toList := by
    decide
  have hExact :
      (capBlock.withProperties
        [Property.byName ("== " ++ "Cap")]).evaluate
          capCatalog =
        .ok ⟨1, .renameItem, some (BaseSet.ofList ["cap"]),
          none, []⟩ := by
    decide +kernel
  have hPart :
      (capBlock.withProperties
        [Property.byName "Cap"]).evaluate capCatalog =
        .ok ⟨1, .renameItem,
          some (BaseSet.ofList ["cap", "skp", "r01"]),
          none, []⟩ := by
    decide +kernel
  rcases
    @exists_narrows capCatalog capBlock [] [] "Cap" _ hToken
      hExact with
    ⟨broad, hBroad, hNarrows⟩
  refine ⟨hToken, hExact, broad, hBroad, ?_, hNarrows⟩
  cases hBroad.symm.trans hPart
  decide

end Instruction

end LootFilter
