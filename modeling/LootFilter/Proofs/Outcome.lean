import Mathlib.Data.List.Forall2

/-
  When computations that can fail succeed.

  Two steps in a row succeed if the first one does and the
  second one does on what the first one gives.  So a chain of
  steps is taken apart from its front.

  Main declarations:
    * `bind_eq_ok_iff`
    * `map_eq_ok_iff`
    * `exists_eq_error_iff`
    * `exists_forall₂_iff`
    * `exists_mem_of_forall₂`
    * `mapM_eq_ok_iff`
-/

namespace LootFilter

variable {ε α β : Type}

/- Two steps in a row succeed if both do. -/
theorem bind_eq_ok_iff
    {x : Except ε α}
    {f : α → Except ε β}
    {b : β} :
    (x >>= f) = .ok b ↔ ∃ a, x = .ok a ∧ f a = .ok b := by
  cases x with
  | error e => simp [bind, Except.bind]
  | ok a => simp [bind, Except.bind]

/- A result that is changed at last is there if it was. -/
theorem map_eq_ok_iff
    {x : Except ε α}
    {f : α → β}
    {b : β} :
    x.map f = .ok b ↔ ∃ a, x = .ok a ∧ f a = b := by
  cases x with
  | error e => simp [Except.map]
  | ok a => simp [Except.map]

/- A failure stays, whatever the result would become. -/
theorem map_eq_error_iff
    {x : Except ε α}
    {f : α → β}
    {e : ε} :
    x.map f = .error e ↔ x = .error e := by
  cases x with
  | error e => simp [Except.map]
  | ok a => simp [Except.map]

/- What does not succeed fails. -/
theorem exists_eq_error_iff {x : Except ε α} :
    (∃ e, x = .error e) ↔ ¬ ∃ a, x = .ok a := by
  cases x <;> simp

/- Each of some things has a partner exactly if all have. -/
theorem exists_forall₂_iff
    {R : α → β → Prop}
    {as : List α} :
    (∃ bs, List.Forall₂ R as bs) ↔ ∀ a ∈ as, ∃ b, R a b := by
  induction as with
  | nil => simp
  | cons a as ih =>
      rw [List.forall_mem_cons, ← ih]
      constructor
      · rintro ⟨_, _ | ⟨hFirst, hRest⟩⟩
        exact ⟨⟨_, hFirst⟩, _, hRest⟩
      · rintro ⟨⟨b, hFirst⟩, bs, hRest⟩
        exact ⟨b :: bs, .cons hFirst hRest⟩

/- Each of some things that are matched has its partner. -/
theorem exists_mem_of_forall₂
    {R : α → β → Prop}
    {as : List α}
    {bs : List β}
    (hAll : List.Forall₂ R as bs)
    {a : α}
    (hMem : a ∈ as) :
    ∃ b ∈ bs, R a b := by
  induction hAll with
  | nil => cases hMem
  | cons hFirst _ ih =>
      rcases List.mem_cons.mp hMem with rfl | hRest
      · exact ⟨_, by simp, hFirst⟩
      · rcases ih hRest with ⟨b, hB, hR⟩
        exact ⟨b, List.mem_cons_of_mem _ hB, hR⟩

/- A step succeeds on each of some things if it does on all. -/
theorem mapM_eq_ok_iff
    {f : α → Except ε β}
    {as : List α}
    {bs : List β} :
    as.mapM f = .ok bs ↔
      List.Forall₂ (fun a b => f a = .ok b) as bs := by
  induction as generalizing bs with
  | nil =>
      rw [List.mapM_nil, List.forall₂_nil_left_iff]
      exact ⟨fun hDone => by cases hDone; rfl, fun h => h ▸ rfl⟩
  | cons a as ih =>
      rw [List.mapM_cons, List.forall₂_cons_left_iff,
        bind_eq_ok_iff]
      simp only [bind_eq_ok_iff, ih]
      constructor
      · rintro ⟨b, hFirst, rest, hRest, hDone⟩
        cases hDone
        exact ⟨b, rest, hFirst, hRest, rfl⟩
      · rintro ⟨b, rest, hFirst, hRest, rfl⟩
        exact ⟨b, hFirst, rest, hRest, rfl⟩

end LootFilter
