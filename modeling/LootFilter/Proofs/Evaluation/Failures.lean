import LootFilter.Proofs.Evaluation.Alone

/-
  Which failure of a block is reported.

  A block fails at the first of its properties that fails
  alone.  Inside a list of arguments it is the same: arguments
  are read one by one and each is resolved before the next one
  is read, so the first one that cannot be resolved is
  reported, and what follows it is never looked at.

  Main declarations:
    * `Argument.Taken`
    * `Argument.Taken.exists_front`
    * `Argument.operator_append`
    * `Selection.feed_eq_error_of_taken`
    * `Instruction.FailsBefore`, `Instruction.FailsFirst`
    * `Instruction.failsFirst_evaluate`
-/

namespace LootFilter

namespace Argument

variable {optional : Bool} {args : List (List Char)}
variable {cs head front arg rest other : List Char}

------------------------------------------------------------
-- Arguments in Turn
------------------------------------------------------------

/-
  Whether reading arguments one after the other gives these
  and leaves the rest.  Only the first one is required.
-/
inductive Taken :
    Bool → List Char → List (List Char) → List Char → Prop
    where
| done
    (optional : Bool)
    (cs : List Char) :
    Taken optional cs [] cs
| more
    {optional : Bool}
    {cs arg between rest : List Char}
    {args : List (List Char)}
    (hNext : next optional cs = .ok (some arg, between))
    (hRest : Taken true between args rest) :
    Taken optional cs (arg :: args) rest

/- What may follow a text is told by where it ends. -/
theorem IsApart.append_congr
    (hApart : IsApart (front ++ rest))
    (hOther : IsApart other) :
    IsApart (front ++ other) := by
  cases front with
  | nil => exact hOther
  | cons c front => exact hApart

/- An argument ends at a space or at the end of the text. -/
theorem Taken.isApart
    (hTaken : Taken optional cs args rest)
    (hSome : args ≠ []) :
    IsApart rest := by
  induction hTaken with
  | done => exact absurd rfl hSome
  | @more optional cs arg between rest args hNext hRest ih =>
      cases args with
      | nil =>
          cases hRest
          rcases next_eq_some_iff.mp hNext with
            ⟨_, _, _, _, _, hApart⟩
          exact hApart
      | cons second args => exact ih (List.cons_ne_nil _ _)

/-
  Arguments are taken from the front of a text, and they are
  the same if something else follows the last of them.
-/
theorem Taken.exists_front
    (hTaken : Taken optional cs args rest) :
    ∃ front,
      cs = front ++ rest ∧
        ∀ other,
          IsApart other →
            Taken optional (front ++ other) args other := by
  induction hTaken with
  | done optional cs =>
      exact ⟨[], rfl, fun other _ => Taken.done optional other⟩
  | @more optional cs arg between rest args hNext hRest ih =>
      rcases ih with ⟨front, rfl, hFront⟩
      rcases next_eq_some_iff.mp hNext with
        ⟨blanks, text, hBlanks, rfl, hSpells, hApart⟩
      refine ⟨blanks ++ (text ++ front), by simp, ?_⟩
      intro other hOther
      have hSame :
          blanks ++ (text ++ front) ++ other =
            blanks ++ (text ++ (front ++ other)) := by
        simp
      refine Taken.more ?_ (hFront other hOther)
      exact
        next_eq_some_iff.mpr
          ⟨blanks, text, hBlanks, hSame, hSpells,
            hApart.append_congr hOther⟩

/- There is no argument among blanks. -/
theorem Taken.skipBlanks_ne_nil
    (hTaken : Taken optional cs (arg :: args) rest) :
    Text.skipBlanks cs ≠ [] := by
  cases hTaken with
  | more hNext _ => exact skipBlanks_ne_nil_of_next hNext

------------------------------------------------------------
-- Operators
------------------------------------------------------------

/- A token ends where a text does that a space follows. -/
theorem token_append_of_isApart
    (text : List Char)
    (hApart : IsApart rest) :
    token (text ++ rest) = token text ∧
      afterToken (text ++ rest) = afterToken text ++ rest := by
  rcases token_append_afterToken text with
    ⟨hCut, hSpace, hAfter⟩
  have hWhole :
      text ++ rest =
        token text ++ (afterToken text ++ rest) := by
    rw [← List.append_assoc, hCut]
  have hBoundary : IsApart (afterToken text ++ rest) := by
    rw [← List.append_nil (afterToken text)] at hAfter
    exact hAfter.append_congr hApart
  rw [hWhole]
  exact token_append hSpace hBoundary

/- Behind an operator is an end of the text. -/
theorem operator_suffix (cs : List Char) :
    (operator cs).2 <:+ cs := by
  unfold operator
  dsimp only
  split
  · exact (afterToken_suffix _).trans (skipBlanks_suffix cs)
  · exact List.suffix_refl cs

/-
  An operator is looked for in the first token, so what comes
  after that does not matter.
-/
theorem operator_append
    (hSome : Text.skipBlanks head ≠ [])
    (hApart : IsApart rest) :
    operator (head ++ rest) =
      ((operator head).1, (operator head).2 ++ rest) := by
  have hSkip :
      Text.skipBlanks (head ++ rest) =
        Text.skipBlanks head ++ rest := by
    unfold Text.skipBlanks at hSome ⊢
    rw [List.dropWhile_append]
    simp [hSome]
  rcases token_append_of_isApart (Text.skipBlanks head) hApart
    with ⟨hToken, hAfter⟩
  unfold operator
  simp only [hSkip, hToken, hAfter]
  split <;> rfl

/-
  Behind an operator or without one, the same arguments are
  taken if something else follows the last of them.
-/
theorem Taken.exists_head
    {raw : List Char}
    {op : Option RelationalOp}
    (hOperator : operator raw = (op, cs))
    (hTaken : Taken false cs args rest)
    (hSome : args ≠ []) :
    ∃ head,
      raw = head ++ rest ∧
        ∀ other,
          IsApart other →
            ∃ after,
              operator (head ++ other) = (op, after) ∧
                Taken false after args other := by
  rcases hTaken.exists_front with ⟨front, rfl, hFront⟩
  have hSuffix := operator_suffix raw
  rw [hOperator] at hSuffix
  rcases hSuffix with ⟨lead, hLead⟩
  have hRaw : raw = lead ++ front ++ rest := by
    rw [List.append_assoc]
    exact hLead.symm
  -- The first argument is in the front, so not all is blank.
  have hText : Text.skipBlanks (lead ++ front) ≠ [] := by
    have hAlone := hFront [] (by simp [IsApart])
    rw [List.append_nil] at hAlone
    cases args with
    | nil => exact absurd rfl hSome
    | cons arg args =>
        have hInner := hAlone.skipBlanks_ne_nil
        unfold Text.skipBlanks at hInner ⊢
        rw [ne_eq, List.dropWhile_eq_nil_iff] at hInner ⊢
        exact fun hAll => hInner fun c hMem =>
          hAll c (List.mem_append_right lead hMem)
  have hHead := operator_append hText (hTaken.isApart hSome)
  rw [← hRaw, hOperator, Prod.mk.injEq] at hHead
  rcases hHead with ⟨hOp, hCut⟩
  have hAfter : front = (operator (lead ++ front)).2 :=
    List.append_cancel_right hCut
  refine ⟨lead ++ front, hRaw, ?_⟩
  intro other hOther
  refine ⟨front ++ other, ?_, hFront other hOther⟩
  rw [operator_append hText hOther, ← hOp, ← hAfter]

end Argument

------------------------------------------------------------
-- Lists With an Argument That Fails
------------------------------------------------------------

namespace Selection

open Argument (Taken)

variable {kind : PropertyKind} {s : Selection}
variable {args : List (List Char)} {cs arg rest : List Char}
variable
  {step : Selection → List Char →
    Except FormatErrorKind Selection}

/- Arguments that are taken are fed before what is left. -/
theorem feedRest_of_taken
    (hTaken : Taken true cs args rest)
    (s : Selection) :
    feedRest kind step s cs =
      (args.foldlM step s >>= fun next =>
        feedRest kind step next rest) := by
  induction args generalizing cs s with
  | nil =>
      cases hTaken
      rfl
  | cons arg args ih =>
      cases hTaken with
      | more hNext hRest =>
          rw [Argument.feedRest_eq,
            Argument.readRest_of_some hNext,
            Argument.Reading.feed_cons, List.foldlM_cons,
            bind_assoc]
          apply bind_congr
          intro next
          rw [← Argument.feedRest_eq]
          exact ih hRest next

/- So are those that are taken from the front of a list. -/
theorem feed_of_taken
    (hTaken : Taken false cs args rest)
    (hSome : args ≠ [])
    (s : Selection) :
    feed kind step s cs =
      (args.foldlM step s >>= fun next =>
        feedRest kind step next rest) := by
  cases hTaken with
  | done => exact absurd rfl hSome
  | @more _ _ arg between rest args hNext hRest =>
      have hRequired : required kind cs = .ok (arg, between) :=
        Argument.required_eq_ok_iff.mpr hNext
      unfold feed
      rw [hRequired, List.foldlM_cons, bind_assoc]
      exact bind_congr fun next => feedRest_of_taken hRest next

/-
  A list fails at the first argument that fails, whatever is
  left behind it.
-/
theorem feed_eq_error_of_taken
    (hStep : ∀ arg, IsSettled (step · arg))
    (hTaken : Taken false cs (args ++ [arg]) rest)
    (hArgs : ∀ a ∈ args, ∃ next, step empty a = .ok next)
    {failure : FormatErrorKind}
    (hArg : step empty arg = .error failure)
    (s : Selection) :
    feed kind step s cs = .error failure := by
  have hFold :
      (args ++ [arg]).foldlM step s = .error failure :=
    (foldlM_eq_error_iff hStep).mpr
      ⟨args, arg, [], rfl, hArgs, hArg⟩
  rw [feed_of_taken hTaken (by simp), hFold]
  rfl

/- A fragment is added if it matches a name. -/
theorem exists_addFragment_iff
    {c : Catalog}
    {op : Option RelationalOp}
    {fragment : List Char} :
    (∃ next, addFragment c op s fragment = .ok next) ↔
      c.matching op fragment ≠ [] := by
  unfold addFragment
  cases c.matching op fragment <;> simp

/- A name is added if it is that of a class. -/
theorem exists_addClassName_iff
    {c : Catalog}
    {name : List Char} :
    (∃ next, addClassName c s name = .ok next) ↔
      ∃ k : ItemClass, Keyword.text k = String.ofList name := by
  unfold addClassName
  simp only [← Keyword.find?_eq_some_iff]
  cases Keyword.find? ItemClass (String.ofList name) <;> simp

end Selection

------------------------------------------------------------
-- The First Failure
------------------------------------------------------------

namespace Instruction

open Argument (Taken IsApart)

/-
  Whether a property fails alone for a reason that is found
  before the rest of its text, whatever the rest is.
-/
def FailsBefore
    (block : Instruction)
    (c : Catalog)
    (kind : PropertyKind)
    (raw rest : List Char)
    (failure : FormatErrorKind) : Prop :=
  ∃ front,
    raw = front ++ rest ∧ IsApart rest ∧
      ∀ other,
        IsApart other →
          (block.only
            ⟨kind, String.ofList (front ++ other)⟩).evaluate c =
            .error ⟨block.sourceLine, failure⟩

/-
  What has to be known of the failures of a block.  It fails
  if one of its properties does alone, and as the first such
  one does.  A property by name or class fails for the first
  argument that cannot be resolved if those before it can be,
  whatever stands behind the end of this argument.
-/
structure FailsFirst
    (c : Catalog)
    (block : Instruction) : Prop where
  fails :
    (∃ e, block.evaluate c = .error e) ↔
      ∃ p ∈ block.properties,
        ∃ e, (block.only p).evaluate c = .error e
  first :
    ∀ before p after e,
      block.properties = before ++ p :: after →
        (∀ q ∈ before,
          ∃ rule, (block.only q).evaluate c = .ok rule) →
          (block.only p).evaluate c = .error e →
            block.evaluate c = .error e
  byName :
    ∀ raw op cs args arg rest,
      Argument.operator raw = (op, cs) →
        Taken false cs (args ++ [arg]) rest →
          (∀ a ∈ args, c.matching op a ≠ []) →
            c.matching op arg = [] →
              block.FailsBefore c .baseType raw rest
                (.noBaseTypeMatch (String.ofList arg))
  byClass :
    ∀ raw args arg rest,
      Taken false raw (args ++ [arg]) rest →
        (∀ a ∈ args,
          ∃ k : ItemClass, Keyword.text k = String.ofList a) →
          (∀ k : ItemClass,
            Keyword.text k ≠ String.ofList arg) →
            block.FailsBefore c .itemClass raw rest
              (.invalidClass (String.ofList arg))

variable {c : Catalog} {block : Instruction}

/- A block fails as its first property that fails alone. -/
theorem evaluate_eq_error_iff_first
    {e : FormatError} :
    block.evaluate c = .error e ↔
      ∃ before p after,
        block.properties = before ++ p :: after ∧
          (∀ q ∈ before,
            ∃ rule, (block.only q).evaluate c = .ok rule) ∧
          (block.only p).evaluate c = .error e := by
  have hSelect :
      ∀ kind,
        block.select c = .error kind ↔
          ∃ before p after,
            block.properties = before ++ p :: after ∧
              (∀ q ∈ before,
                ∃ rule, (block.only q).evaluate c = .ok rule) ∧
              (block.only p).select c = .error kind := by
    intro kind
    simp only [exists_rule_iff, select_only]
    exact
      Selection.foldlM_eq_error_iff
        (Selection.isSettled_apply c block.verb)
  simp only [evaluate_eq_error_iff, hSelect]
  constructor
  · rintro ⟨kind, ⟨before, p, after, hCut, hBefore, hP⟩, rfl⟩
    exact ⟨before, p, after, hCut, hBefore, kind, hP, rfl⟩
  · rintro ⟨before, p, after, hCut, hBefore, kind, hP, rfl⟩
    exact ⟨kind, ⟨before, p, after, hCut, hBefore, hP⟩, rfl⟩

/- The first failure is the one that is reported. -/
theorem failsFirst_evaluate
    (c : Catalog)
    (block : Instruction) :
    FailsFirst c block where
  fails := by
    rw [exists_eq_error_iff, exists_evaluate_iff]
    simp only [exists_eq_error_iff, not_forall, exists_prop]
  first before p after e hCut hBefore hP :=
    evaluate_eq_error_iff_first.mpr
      ⟨before, p, after, hCut, hBefore, hP⟩
  byName := by
    intro raw op cs args arg rest hOperator hTaken hArgs hArg
    rcases hTaken.exists_head hOperator (by simp) with
      ⟨front, hRaw, hFront⟩
    refine ⟨front, hRaw, hTaken.isApart (by simp), ?_⟩
    intro other hOther
    rcases hFront other hOther with ⟨after, hAfter, hSame⟩
    have hFeed :
        Selection.feed .baseType (Selection.addFragment c op)
            Selection.empty after =
          .error (.noBaseTypeMatch (String.ofList arg)) := by
      apply
        Selection.feed_eq_error_of_taken
          (Selection.isSettled_addFragment c op) hSame
      · exact fun a hMem =>
          Selection.exists_addFragment_iff.mpr (hArgs a hMem)
      · simp [Selection.addFragment, hArg]
    apply evaluate_eq_error_iff.mpr
    refine ⟨_, ?_, rfl⟩
    rw [select_only, Selection.apply]
    simp only [String.toList_ofList, hAfter]
    exact hFeed
  byClass := by
    intro raw args arg rest hTaken hArgs hArg
    rcases hTaken.exists_front with ⟨front, hRaw, hFront⟩
    refine ⟨front, hRaw, hTaken.isApart (by simp), ?_⟩
    intro other hOther
    have hFeed :
        Selection.feed .itemClass (Selection.addClassName c)
            Selection.empty (front ++ other) =
          .error (.invalidClass (String.ofList arg)) := by
      apply
        Selection.feed_eq_error_of_taken
          (Selection.isSettled_addClassName c)
          (hFront other hOther)
      · exact fun a hMem =>
          Selection.exists_addClassName_iff.mpr (hArgs a hMem)
      · simp [Selection.addClassName,
          Keyword.find?_eq_none_iff.mpr hArg]
    apply evaluate_eq_error_iff.mpr
    refine ⟨_, ?_, rfl⟩
    rw [select_only, Selection.apply]
    simp only [String.toList_ofList]
    exact hFeed

/- A quote that is left open behind the failure is not seen. -/
example :
    (⟨3, .showItem,
      [ ⟨.addVfx, "Beam"⟩,
        ⟨.itemClass, "Ring Crown \"Belt"⟩,
        ⟨.newName, "Cap"⟩ ]⟩ : Instruction).evaluate
        Catalog.empty =
      .error ⟨3, .invalidClass "Crown"⟩ := by
  decide +kernel

end Instruction

end LootFilter
