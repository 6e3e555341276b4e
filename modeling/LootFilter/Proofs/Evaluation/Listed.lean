import LootFilter.Evaluation
import LootFilter.Proofs.Outcome

/-
  What the properties of a block list, read off their texts.

  The arguments of a text are read one after the other until
  none is left or one is empty.  Feeding a list of arguments
  to a step is taking the step for each of them, so what a
  property adds to a selection can be told from its text.

  Main declarations:
    * `Argument.all`
    * `Selection.foldlM_of_feed`
    * `Property.fragments`
    * `Property.classes`
    * `Property.effect?`
    * `Property.template?`
-/

namespace LootFilter

------------------------------------------------------------
-- Arguments of a Text
------------------------------------------------------------

namespace Argument

/- The arguments of a text, up to an empty one or none. -/
def all (cs : List Char) : List (List Char) :=
  match _hNext : next true cs with
  | .ok (some arg, rest) => arg :: all rest
  | _ => []
termination_by cs.length
decreasing_by exact next_length_lt _hNext

/- The first argument and those after it. -/
theorem all_of_next
    {cs arg rest : List Char}
    (hNext : next true cs = .ok (some arg, rest)) :
    all cs = arg :: all rest := by
  rw [all]
  split
  · rename_i hSame
    rw [hNext] at hSame
    cases hSame
    rfl
  · rename_i hOther
    exact absurd hNext (hOther arg rest)

/- A text that starts with no argument has none. -/
theorem all_of_next_none
    {cs rest : List Char}
    (hNext : next true cs = .ok (none, rest)) :
    all cs = [] := by
  rw [all]
  split
  · rename_i hSome
    rw [hNext] at hSome
    cases hSome
  · rfl

/- An argument that is there is read, required or not. -/
theorem accept_true_of_accept_false
    {body arg : List Char}
    (hAccept : accept false body = .ok (some arg)) :
    accept true body = .ok (some arg) := by
  unfold accept at hAccept ⊢
  split at hAccept
  · cases hAccept
  · exact hAccept

/- An argument that is required is read as one that is not. -/
theorem next_true_of_next_false
    {cs arg rest : List Char}
    (hNext : next false cs = .ok (some arg, rest)) :
    next true cs = .ok (some arg, rest) := by
  rcases Step.result_eq_ok_iff.mp hNext with ⟨hValue, rfl⟩
  apply Step.result_eq_ok_iff.mpr
  unfold lex at hValue ⊢
  cases hLeft : Text.skipBlanks cs with
  | nil =>
      rw [hLeft] at hValue
      cases hValue
  | cons c left =>
      rw [hLeft] at hValue
      dsimp only at hValue ⊢
      by_cases hQuote : c = '"'
      · simp only [if_pos hQuote] at hValue ⊢
        rcases bind_eq_ok_iff.mp hValue with
          ⟨body, hQuoted, hAccept⟩
        have hTrue := accept_true_of_accept_false hAccept
        exact
          ⟨bind_eq_ok_iff.mpr ⟨body, hQuoted, hTrue⟩, trivial⟩
      · simp only [if_neg hQuote] at hValue ⊢
        exact ⟨accept_true_of_accept_false hValue, trivial⟩

end Argument

------------------------------------------------------------
-- Feeding Lists
------------------------------------------------------------

namespace Selection

variable {kind : PropertyKind} {s next : Selection}
variable {cs arg rest : List Char}
variable
  {step : Selection → List Char →
    Except FormatErrorKind Selection}

/- A required argument is the first of the text. -/
theorem all_of_required
    (hRequired : required kind cs = .ok (arg, rest)) :
    Argument.all cs = arg :: Argument.all rest := by
  unfold required at hRequired
  split at hRequired
  · cases hRequired
  · cases hRequired
  · rename_i hNext
    cases hRequired
    apply Argument.all_of_next
    exact Argument.next_true_of_next_false hNext

/- Feeding the rest of a list takes the step for each. -/
theorem foldlM_of_feedRest
    (hFeed : feedRest kind step s cs = .ok next) :
    (Argument.all cs).foldlM step s = .ok next := by
  fun_induction feedRest kind step s cs with
  | case1 s cs e hNext => cases hFeed
  | case2 s cs rest hNext =>
      rw [Argument.all_of_next_none hNext]
      rcases bind_eq_ok_iff.mp hFeed with ⟨u, _, hDone⟩
      exact hDone
  | case3 s cs arg rest hNext ih =>
      rw [Argument.all_of_next hNext, List.foldlM_cons]
      rcases bind_eq_ok_iff.mp hFeed with
        ⟨middle, hStep, hRest⟩
      exact bind_eq_ok_iff.mpr ⟨middle, hStep, ih middle hRest⟩

/-
  Feeding a list takes the step for each of its arguments, of
  which there is at least one.
-/
theorem foldlM_of_feed
    (hFeed : feed kind step s cs = .ok next) :
    Argument.all cs ≠ [] ∧
      (Argument.all cs).foldlM step s = .ok next := by
  unfold feed at hFeed
  rcases bind_eq_ok_iff.mp hFeed with
    ⟨⟨arg, rest⟩, hRequired, hList⟩
  rcases bind_eq_ok_iff.mp hList with
    ⟨middle, hStep, hRest⟩
  rw [all_of_required hRequired, List.foldlM_cons]
  refine ⟨List.cons_ne_nil _ _, ?_⟩
  apply bind_eq_ok_iff.mpr
  exact ⟨middle, hStep, foldlM_of_feedRest hRest⟩

end Selection

------------------------------------------------------------
-- What a Property Lists
------------------------------------------------------------

namespace Property

/- The fragments of a property, each with its operator. -/
def fragments
    (p : Property) :
    List (Option RelationalOp × List Char) :=
  match p.kind with
  | .baseType =>
      let (op, rest) := Argument.operator p.raw.toList
      (Argument.all rest).map fun fragment => (op, fragment)
  | _ => []

/- The classes of a property. -/
def classes (p : Property) : List ItemClass :=
  match p.kind with
  | .itemClass =>
      (Argument.all p.raw.toList).filterMap fun name =>
        Keyword.find? ItemClass (String.ofList name)
  | _ => []

/- The visual effect of a property. -/
def effect? (p : Property) : Option VisualEffect :=
  match p.kind with
  | .addVfx =>
      match Argument.bare p.raw.toList with
      | .ok (some name, _) =>
          Keyword.find? VisualEffect (String.ofList name)
      | _ => none
  | _ => none

/- The template for new names of a property. -/
def template? (p : Property) : Option String :=
  match p.kind with
  | .newName =>
      (Argument.all p.raw.toList).head?.map String.ofList
  | _ => none

end Property

end LootFilter
