import LootFilter.Proofs.Evaluation.Lists

/-
  Properties on their own.

  Whether a property can be read, and why not, is told by the
  property, the verb and the catalog, and not by what was
  selected before it.  So a block fails at the first of its
  properties that fails alone, and a list of arguments at its
  first argument that fails alone.  Both are one induction on
  a list of steps that are settled in this sense.

  Main declarations:
    * `Selection.IsSettled`
    * `Selection.isSettled_apply`
    * `Selection.exists_foldlM_iff`
    * `Selection.foldlM_eq_error_iff`
    * `Instruction.only`
    * `Instruction.exists_evaluate_iff`
-/

namespace LootFilter

------------------------------------------------------------
-- Settled Steps
------------------------------------------------------------

namespace Selection

/-
  Whether a step fails, always for the same reason, or is
  always taken, whatever is selected before it.
-/
def IsSettled
    (step : Selection → Except FormatErrorKind Selection) :
    Prop :=
  (∃ kind, ∀ s, step s = .error kind) ∨
    ∀ s, ∃ next, step s = .ok next

variable
  {first second :
    Selection → Except FormatErrorKind Selection}

/- A step that does not look at the selection is settled. -/
theorem isSettled_of_error
    (kind : FormatErrorKind) :
    IsSettled fun _ => .error kind :=
  Or.inl ⟨kind, fun _ => rfl⟩

/- So is one that is taken in any case. -/
theorem isSettled_of_ok
    (gain : Selection → Selection) :
    IsSettled fun s => .ok (gain s) :=
  Or.inr fun s => ⟨gain s, rfl⟩

/- Two settled steps in a row are one. -/
theorem IsSettled.bind
    (hFirst : IsSettled first)
    (hSecond : IsSettled second) :
    IsSettled fun s => first s >>= second := by
  rcases hFirst with ⟨kind, hError⟩ | hTaken
  · left
    refine ⟨kind, fun s => ?_⟩
    dsimp only
    rw [hError]
    rfl
  · rcases hSecond with ⟨kind, hError⟩ | hNext
    · left
      refine ⟨kind, fun s => ?_⟩
      dsimp only
      rcases hTaken s with ⟨middle, hMiddle⟩
      rw [hMiddle]
      exact hError middle
    · right
      intro s
      dsimp only
      rcases hTaken s with ⟨middle, hMiddle⟩
      rw [hMiddle]
      exact hNext middle

/- A failure that is seen once is seen always. -/
theorem IsSettled.eq_error
    (hSettled : IsSettled first)
    {kind : FormatErrorKind}
    {s : Selection}
    (hError : first s = .error kind)
    (t : Selection) :
    first t = .error kind := by
  rcases hSettled with ⟨other, hAll⟩ | hTaken
  · rw [hAll] at hError ⊢
    exact hError
  · rcases hTaken s with ⟨next, hNext⟩
    rw [hNext] at hError
    cases hError

/- A step that is taken once is taken always. -/
theorem IsSettled.exists_eq_ok
    (hSettled : IsSettled first)
    {s next : Selection}
    (hOk : first s = .ok next)
    (t : Selection) :
    ∃ other, first t = .ok other := by
  rcases hSettled with ⟨kind, hAll⟩ | hTaken
  · rw [hAll] at hOk
    cases hOk
  · exact hTaken t

------------------------------------------------------------
-- Many Settled Steps
------------------------------------------------------------

section

variable {α : Type} {args : List α}
variable
  {step : Selection → α → Except FormatErrorKind Selection}

/- A step for each argument is settled if each of them is. -/
theorem isSettled_foldlM
    (hStep : ∀ arg, IsSettled (step · arg))
    (args : List α) :
    IsSettled (args.foldlM step) := by
  induction args with
  | nil => exact isSettled_of_ok id
  | cons arg args ih =>
      have hCons :
          (arg :: args).foldlM step =
            fun s => step s arg >>= args.foldlM step :=
        funext fun s => List.foldlM_cons
      rw [hCons]
      exact (hStep arg).bind ih

/-
  All steps are taken if each one is on its own, that is, when
  nothing is selected before it.
-/
theorem exists_foldlM_iff
    (hStep : ∀ arg, IsSettled (step · arg))
    {s : Selection} :
    (∃ next, args.foldlM step s = .ok next) ↔
      ∀ arg ∈ args, ∃ next, step empty arg = .ok next := by
  induction args generalizing s with
  | nil => simpa using ⟨s, rfl⟩
  | cons arg args ih =>
      simp only [List.foldlM_cons, bind_eq_ok_iff,
        List.forall_mem_cons]
      constructor
      · rintro ⟨next, middle, hFirst, hRest⟩
        exact
          ⟨(hStep arg).exists_eq_ok hFirst empty,
            ih.mp ⟨next, hRest⟩⟩
      · rintro ⟨⟨alone, hAlone⟩, hAll⟩
        rcases (hStep arg).exists_eq_ok hAlone s with
          ⟨middle, hFirst⟩
        rcases ih.mpr hAll with ⟨next, hRest⟩
        exact ⟨next, middle, hFirst, hRest⟩

/-
  Otherwise the first step fails that fails on its own, and
  for the same reason.
-/
theorem foldlM_eq_error_iff
    (hStep : ∀ arg, IsSettled (step · arg))
    {s : Selection}
    {kind : FormatErrorKind} :
    args.foldlM step s = .error kind ↔
      ∃ before arg after,
        args = before ++ arg :: after ∧
          (∀ other ∈ before,
            ∃ next, step empty other = .ok next) ∧
          step empty arg = .error kind := by
  constructor
  · intro hFold
    induction args generalizing s with
    | nil => cases hFold
    | cons arg args ih =>
        rw [List.foldlM_cons] at hFold
        cases hFirst : step s arg with
        | error found =>
            rw [hFirst] at hFold
            cases hFold
            exact
              ⟨[], arg, args, rfl, by simp,
                (hStep arg).eq_error hFirst empty⟩
        | ok middle =>
            rw [hFirst] at hFold
            rcases ih hFold with
              ⟨before, last, after, rfl, hBefore, hLast⟩
            have hArg := (hStep arg).exists_eq_ok hFirst empty
            exact
              ⟨arg :: before, last, after, rfl,
                List.forall_mem_cons.mpr ⟨hArg, hBefore⟩,
                hLast⟩
  · rintro ⟨before, arg, after, rfl, hBefore, hArg⟩
    rcases (exists_foldlM_iff hStep (s := s)).mpr hBefore with
      ⟨middle, hMiddle⟩
    rw [List.foldlM_append, hMiddle]
    show (arg :: after).foldlM step middle = _
    rw [List.foldlM_cons, (hStep arg).eq_error hArg middle]
    rfl

end

------------------------------------------------------------
-- Reading a Property Is Settled
------------------------------------------------------------

/- A fragment matches some names or none. -/
theorem isSettled_addFragment
    (c : Catalog)
    (op : Option RelationalOp)
    (fragment : List Char) :
    IsSettled (addFragment c op · fragment) := by
  unfold addFragment
  cases c.matching op fragment with
  | nil => exact isSettled_of_error _
  | cons key keys => exact isSettled_of_ok _

/- A name is one of a class or not. -/
theorem isSettled_addClassName
    (c : Catalog)
    (name : List Char) :
    IsSettled (addClassName c · name) := by
  unfold addClassName
  cases Keyword.find? ItemClass (String.ofList name) with
  | none => exact isSettled_of_error _
  | some k => exact isSettled_of_ok _

/- A list is read alike whatever is selected before it. -/
theorem isSettled_feed
    (kind : PropertyKind)
    {step :
      Selection → List Char →
        Except FormatErrorKind Selection}
    (hStep : ∀ arg, IsSettled (step · arg))
    (cs : List Char) :
    IsSettled (feed kind step · cs) := by
  simp only [Argument.feed_eq]
  apply (isSettled_foldlM hStep _).bind
  cases (Argument.readList kind cs).failure with
  | none => exact isSettled_of_ok id
  | some failure => exact isSettled_of_error failure

/- So is a template. -/
theorem isSettled_setName
    (verb : Verb)
    (cs : List Char) :
    IsSettled (setName verb · cs) := by
  unfold setName
  by_cases hVerb : verb = .renameItem
  · simp only [if_pos hVerb]
    cases required .newName cs with
    | error kind => exact isSettled_of_error kind
    | ok pair =>
        obtain ⟨template, rest⟩ := pair
        cases hRest : finished .newName rest with
        | error kind =>
            simpa [hRest, bind, Except.bind]
              using isSettled_of_error kind
        | ok u =>
            simpa [hRest, bind, Except.bind, pure, Except.pure]
              using isSettled_of_ok fun s =>
                { s with rename := some (String.ofList template) }
  · simp only [if_neg hVerb]
    exact isSettled_of_error _

/- And so is a visual effect. -/
theorem isSettled_addEffect (cs : List Char) :
    IsSettled (addEffect · cs) := by
  unfold addEffect
  split
  · exact isSettled_of_error _
  · exact isSettled_of_error _
  · rename_i name rest _
    split
    · exact isSettled_of_error _
    · rename_i effect _
      cases hRest : finished .addVfx rest with
      | error kind =>
          simpa [hRest, bind, Except.bind]
            using isSettled_of_error kind
      | ok u =>
          simpa [hRest, bind, Except.bind, pure, Except.pure]
            using isSettled_of_ok fun s =>
              { s with vfx := s.vfx ++ [effect] }

/- Whether a property can be read is told by it alone. -/
theorem isSettled_apply
    (c : Catalog)
    (verb : Verb)
    (p : Property) :
    IsSettled (apply c verb · p) := by
  unfold apply
  cases p.kind with
  | baseType =>
      exact isSettled_feed _ (isSettled_addFragment c _) _
  | itemClass =>
      exact isSettled_feed _ (isSettled_addClassName c) _
  | newName => exact isSettled_setName verb _
  | addVfx => exact isSettled_addEffect _
  | playSound => exact isSettled_of_error _

end Selection

------------------------------------------------------------
-- Blocks With One Property
------------------------------------------------------------

namespace Instruction

variable {c : Catalog} {block : Instruction} {p : Property}

/- The block with other properties. -/
def withProperties
    (block : Instruction)
    (properties : List Property) : Instruction :=
  { block with properties := properties }

/- The block with one property and no other. -/
def only (block : Instruction) (p : Property) : Instruction :=
  block.withProperties [p]

/- A block with one property reads it before anything else. -/
theorem select_only :
    (block.only p).select c =
      Selection.apply c block.verb Selection.empty p := by
  unfold select only withProperties
  simp only [List.foldlM_cons, List.foldlM_nil, bind_pure]

/- A block has a rule if its properties are read. -/
theorem exists_rule_iff :
    (∃ rule, block.evaluate c = .ok rule) ↔
      ∃ s, block.select c = .ok s := by
  simp [evaluate_eq_ok_iff]

/- They are if each of them is alone. -/
theorem exists_evaluate_iff :
    (∃ rule, block.evaluate c = .ok rule) ↔
      ∀ p ∈ block.properties,
        ∃ rule, (block.only p).evaluate c = .ok rule := by
  simp only [exists_rule_iff, select_only]
  exact
    Selection.exists_foldlM_iff
      (Selection.isSettled_apply c block.verb)

end Instruction

end LootFilter
