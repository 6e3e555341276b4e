import LootFilter.Conflict
import LootFilter.Proofs.Outcome

/-
  When rules are in conflict.

  The claims of earlier rules say which of them targets a base
  type.  A base type that is claimed already is therefore a
  target of an earlier rule and of the present one, and if
  there is none, no two rules have a common target.  The rules
  before the first one that cannot make its claim have no
  common targets, so the conflict that is found names the only
  one of them that targets the base type.

  Main declarations:
    * `DisjointTargets`
    * `Claims`
    * `claimRules_eq_ok`
    * `exists_of_claimRules_eq_error`
    * `validate_eq_ok_iff`
    * `validate_eq_error`
    * `FirstConflict`
    * `validate_iff_firstConflict`
-/

namespace LootFilter

/- Rules without common targets. -/
def DisjointTargets (rules : List Rule) : Prop :=
  rules.Pairwise fun a b =>
    ∀ base ∈ a.targets, base ∉ b.targets

/- Claims hold the lines of the rules that made them. -/
def Claims
    (claims : Assoc String Nat)
    (earlier : List Rule) : Prop :=
  (∀ base line,
    Assoc.find? base claims = some line →
      ∃ rule ∈ earlier,
        base ∈ rule.targets ∧ rule.sourceLine = line) ∧
    ∀ rule ∈ earlier, ∀ base ∈ rule.targets,
      Assoc.find? base claims ≠ none

------------------------------------------------------------
-- One Rule
------------------------------------------------------------

variable {line : Nat} {claims next : Assoc String Nat}
variable {bases : List String} {e : ConflictError}

/- Base types that can be claimed were free, and are claimed. -/
theorem claimAll_eq_ok
    (hDistinct : bases.Nodup)
    (hClaim : claimAll line claims bases = .ok next) :
    (∀ base ∈ bases, Assoc.find? base claims = none) ∧
      ∀ base,
        Assoc.find? base next =
          if base ∈ bases then some line
          else Assoc.find? base claims := by
  induction bases generalizing claims with
  | nil =>
      cases hClaim
      simp
  | cons first bases ih =>
      rw [List.nodup_cons] at hDistinct
      unfold claimAll at hClaim
      cases hFind : Assoc.find? first claims with
      | some earlier => simp [hFind] at hClaim
      | none =>
          simp only [hFind] at hClaim
          rcases ih hDistinct.2 hClaim with ⟨hFree, hNext⟩
          constructor
          · intro base hMem
            rcases List.mem_cons.mp hMem with rfl | hRest
            · exact hFind
            · have hNe : base ≠ first := by
                rintro rfl
                exact hDistinct.1 hRest
              rw [← hFree base hRest]
              exact (Assoc.find?_set_of_ne hNe _ _).symm
          · intro base
            rw [hNext]
            by_cases hFirst : base = first
            · subst hFirst
              simp [hDistinct.1]
            · simp [hFirst, Assoc.find?_set_of_ne hFirst]

/-
  A base type that cannot be claimed was claimed before, and
  is the first such one.
-/
theorem claimAll_eq_error
    (hClaim : claimAll line claims bases = .error e)
    (hDistinct : bases.Nodup) :
    ∃ front back,
      bases = front ++ e.baseType :: back ∧
        (∀ base ∈ front, Assoc.find? base claims = none) ∧
        Assoc.find? e.baseType claims = some e.firstLine ∧
        e.secondLine = line := by
  induction bases generalizing claims with
  | nil => cases hClaim
  | cons first bases ih =>
      rw [List.nodup_cons] at hDistinct
      unfold claimAll at hClaim
      cases hFind : Assoc.find? first claims with
      | some earlier =>
          simp only [hFind, Except.error.injEq] at hClaim
          subst hClaim
          exact ⟨[], bases, rfl, by simp, hFind, rfl⟩
      | none =>
          simp only [hFind] at hClaim
          rcases ih hClaim hDistinct.2 with
            ⟨front, back, rfl, hFree, hEarlier, hLine⟩
          -- The new claim is for none of the base types after it.
          have hOld :
              ∀ base ∈ front ++ e.baseType :: back,
                Assoc.find? base (Assoc.set first line claims) =
                  Assoc.find? base claims := by
            intro base hMem
            apply Assoc.find?_set_of_ne
            rintro rfl
            exact hDistinct.1 hMem
          refine
            ⟨first :: front, back, rfl, ?_, ?_, hLine⟩
          · rw [List.forall_mem_cons]
            refine ⟨hFind, fun base hMem => ?_⟩
            rw [← hOld base (List.mem_append_left _ hMem)]
            exact hFree base hMem
          · rw [← hOld e.baseType (by simp)]
            exact hEarlier

/- The claims of one more rule. -/
theorem Claims.claimAll
    {earlier : List Rule}
    {rule : Rule}
    (hClaims : Claims claims earlier)
    (hClaim :
      LootFilter.claimAll rule.sourceLine claims rule.targets =
        .ok next) :
    Claims next (earlier ++ [rule]) := by
  rcases claimAll_eq_ok rule.nodup_targets hClaim with
    ⟨_, hNext⟩
  constructor
  · intro base line hFind
    rw [hNext] at hFind
    split at hFind
    · rename_i hMem
      cases hFind
      exact ⟨rule, by simp, hMem, rfl⟩
    · rcases hClaims.1 base line hFind with
        ⟨other, hOther, hTarget⟩
      exact ⟨other, List.mem_append_left _ hOther, hTarget⟩
  · intro other hOther base hTarget
    rw [hNext]
    split
    · simp
    · rename_i hNotMem
      rcases List.mem_append.mp hOther with hOld | hNew
      · exact hClaims.2 other hOld base hTarget
      · rw [List.mem_singleton] at hNew
        rw [hNew] at hTarget
        exact absurd hTarget hNotMem

------------------------------------------------------------
-- All Rules
------------------------------------------------------------

variable {earlier rules : List Rule}

/-
  If all rules can make their claims, they have no common
  target with each other or with an earlier one.
-/
theorem claimRules_eq_ok
    (hClaims : Claims claims earlier)
    (hRules : claimRules claims rules = .ok next) :
    DisjointTargets rules ∧
      ∀ a ∈ earlier, ∀ b ∈ rules,
        ∀ base ∈ a.targets, base ∉ b.targets := by
  induction rules generalizing claims earlier with
  | nil => exact ⟨List.Pairwise.nil, by simp⟩
  | cons rule rules ih =>
      unfold claimRules at hRules
      cases hClaim :
          claimAll rule.sourceLine claims rule.targets with
      | error e => simp [hClaim] at hRules
      | ok middle =>
          simp only [hClaim] at hRules
          rcases ih (hClaims.claimAll hClaim) hRules with
            ⟨hDisjoint, hApart⟩
          have hFree :=
            (claimAll_eq_ok rule.nodup_targets hClaim).1
          constructor
          · apply List.pairwise_cons.mpr
            refine ⟨?_, hDisjoint⟩
            intro other hOther
            exact hApart rule (by simp) other hOther
          · intro a hA b hB
            rcases List.mem_cons.mp hB with rfl | hRest
            · intro base hTarget hAgain
              exact
                hClaims.2 a hA base hTarget
                  (hFree base hAgain)
            · exact
                hApart a (List.mem_append_left _ hA) b hRest

/- The claims of more rules. -/
theorem Claims.claimRules
    (hClaims : Claims claims earlier)
    (hRules : LootFilter.claimRules claims rules = .ok next) :
    Claims next (earlier ++ rules) := by
  induction rules generalizing claims earlier with
  | nil =>
      cases hRules
      rwa [List.append_nil]
  | cons rule rules ih =>
      unfold LootFilter.claimRules at hRules
      cases hClaim :
          LootFilter.claimAll rule.sourceLine claims
            rule.targets with
      | error e => simp [hClaim] at hRules
      | ok middle =>
          simp only [hClaim] at hRules
          have hRest := ih (hClaims.claimAll hClaim) hRules
          rwa [List.append_assoc, List.singleton_append]
            at hRest

/-
  If not all rules can make their claims, there is a first one
  that cannot.
-/
theorem exists_of_claimRules_eq_error
    (hRules : claimRules claims rules = .error e) :
    ∃ before second after middle,
      rules = before ++ second :: after ∧
        claimRules claims before = .ok middle ∧
        claimAll second.sourceLine middle second.targets =
          .error e := by
  induction rules generalizing claims with
  | nil => cases hRules
  | cons rule rules ih =>
      unfold claimRules at hRules
      cases hClaim :
          claimAll rule.sourceLine claims rule.targets with
      | error found =>
          simp only [hClaim, Except.error.injEq] at hRules
          subst hRules
          exact ⟨[], rule, rules, claims, rfl, rfl, hClaim⟩
      | ok next =>
          simp only [hClaim] at hRules
          rcases ih hRules with
            ⟨before, second, after, middle, rfl, hBefore,
              hSecond⟩
          refine
            ⟨rule :: before, second, after, middle, rfl, ?_,
              hSecond⟩
          unfold claimRules
          simp only [hClaim, hBefore]

/- Before any rule, nothing is claimed. -/
theorem claims_nil : Claims [] [] := by
  constructor
  · intro base line hFind
    cases hFind
  · intro rule hMem
    cases hMem

/-
  A conflict is the first target of a rule that an earlier
  rule has, where all rules before that one may pass.
-/
theorem exists_of_validate_eq_error
    (hValidate : validate rules = .error e) :
    ∃ before second after front back first,
      rules = before ++ second :: after ∧
        DisjointTargets before ∧
        second.targets = front ++ e.baseType :: back ∧
        (∀ base ∈ front, ∀ rule ∈ before,
          base ∉ rule.targets) ∧
        first ∈ before ∧
        e.baseType ∈ first.targets ∧
        e.firstLine = first.sourceLine ∧
        e.secondLine = second.sourceLine := by
  have hRules := map_eq_error_iff.mp hValidate
  rcases exists_of_claimRules_eq_error hRules with
    ⟨before, second, after, middle, rfl, hBefore, hSecond⟩
  have hClaims := claims_nil.claimRules hBefore
  rcases claimAll_eq_error hSecond second.nodup_targets with
    ⟨front, back, hTargets, hFree, hFind, hSecondLine⟩
  rcases hClaims.1 _ _ hFind with
    ⟨first, hFirst, hTarget, hFirstLine⟩
  refine
    ⟨before, second, after, front, back, first, rfl,
      (claimRules_eq_ok claims_nil hBefore).1, hTargets, ?_,
      hFirst, hTarget, hFirstLine.symm, hSecondLine⟩
  intro base hMem rule hRule hTwice
  exact hClaims.2 rule hRule base hTwice (hFree base hMem)

/- A conflict is a common target of two rules, in order. -/
theorem validate_eq_error
    (hValidate : validate rules = .error e) :
    ∃ first second,
      [first, second].Sublist rules ∧
        e.baseType ∈ first.targets ∧
        e.baseType ∈ second.targets ∧
        e.firstLine = first.sourceLine ∧
        e.secondLine = second.sourceLine := by
  rcases exists_of_validate_eq_error hValidate with
    ⟨before, second, after, front, back, first, rfl, _,
      hTargets, _, hFirst, hTarget, hLines⟩
  have hOne : [first].Sublist before :=
    List.singleton_sublist.mpr hFirst
  have hTwo : [second].Sublist (second :: after) :=
    List.singleton_sublist.mpr List.mem_cons_self
  exact
    ⟨first, second, hOne.append hTwo, hTarget,
      by simp [hTargets], hLines⟩

/- Rules pass exactly if they have no common targets. -/
theorem validate_eq_ok_iff :
    validate rules = .ok () ↔ DisjointTargets rules := by
  constructor
  · intro hValidate
    rcases map_eq_ok_iff.mp hValidate with ⟨next, hRules, _⟩
    exact (claimRules_eq_ok claims_nil hRules).1
  · intro hDisjoint
    cases hValidate : validate rules with
    | ok u => rfl
    | error found =>
        rcases validate_eq_error hValidate with
          ⟨first, second, hSublist, hFirst, hSecond, _⟩
        have hPair := List.Pairwise.sublist hSublist hDisjoint
        rw [List.pairwise_pair] at hPair
        exact absurd hSecond (hPair _ hFirst)

------------------------------------------------------------
-- The First Conflict
------------------------------------------------------------

/- Whether the rule at a position targets a base type. -/
def TargetsAt
    (rules : List Rule)
    (i : Nat)
    (base : String) : Prop :=
  ∃ rule, rules[i]? = some rule ∧ base ∈ rule.targets

/-
  Whether a conflict is the first one of some rules: that of
  the rule at position `j`, the least one with a target of an
  earlier rule, with the rule at position `i`, the only one
  before it that has the first such target.
-/
structure FirstConflict
    (rules : List Rule)
    (i j : Nat)
    (e : ConflictError) : Prop where
  earlier : i < j
  least :
    ∀ n < j, ∀ k < n, ∀ base,
      TargetsAt rules k base → ¬ TargetsAt rules n base
  second :
    ∃ rule front back,
      rules[j]? = some rule ∧
        rule.sourceLine = e.secondLine ∧
        rule.targets = front ++ e.baseType :: back ∧
        ∀ base ∈ front, ∀ k < j, ¬ TargetsAt rules k base
  first :
    ∃ rule,
      rules[i]? = some rule ∧
        rule.sourceLine = e.firstLine ∧
        e.baseType ∈ rule.targets
  only : ∀ k < j, TargetsAt rules k e.baseType → k = i

/- Rules have no common targets if no two positions do. -/
theorem disjointTargets_iff :
    DisjointTargets rules ↔
      ∀ i j, i ≠ j → ∀ base,
        TargetsAt rules i base → ¬ TargetsAt rules j base := by
  unfold DisjointTargets
  rw [List.pairwise_iff_getElem]
  constructor
  · rintro hApart i j hNe base ⟨a, hA, hTarget⟩
      ⟨b, hB, hAgain⟩
    rcases List.getElem?_eq_some_iff.mp hA with ⟨hI, rfl⟩
    rcases List.getElem?_eq_some_iff.mp hB with ⟨hJ, rfl⟩
    rcases Nat.lt_or_gt_of_ne hNe with hLt | hGt
    · exact hApart i j hI hJ hLt base hTarget hAgain
    · exact hApart j i hJ hI hGt base hAgain hTarget
  · intro hApart i j hI hJ hLt base hTarget hAgain
    exact
      hApart i j (Nat.ne_of_lt hLt) base
        ⟨_, List.getElem?_eq_getElem hI, hTarget⟩
        ⟨_, List.getElem?_eq_getElem hJ, hAgain⟩

/- The rules before another one are at smaller positions. -/
theorem targetsAt_append_iff
    {before after : List Rule}
    {k : Nat}
    {base : String}
    (hLt : k < before.length) :
    TargetsAt (before ++ after) k base ↔
      TargetsAt before k base := by
  unfold TargetsAt
  rw [List.getElem?_append_left hLt]

/- A rule targets a base type at some position. -/
theorem exists_targetsAt_iff
    {base : String} :
    (∃ k, TargetsAt rules k base) ↔
      ∃ rule ∈ rules, base ∈ rule.targets := by
  unfold TargetsAt
  rw [exists_comm]
  simp only [exists_and_right, List.mem_iff_getElem?]

/- What is the first of its kind in a list is the only one. -/
theorem eq_of_append_cons_eq
    {P : String → Prop}
    {front back start rest : List String}
    {a b : String}
    (hSame : front ++ a :: back = start ++ b :: rest)
    (hFront : ∀ x ∈ front, ¬ P x)
    (hStart : ∀ x ∈ start, ¬ P x)
    (hA : P a)
    (hB : P b) :
    a = b := by
  classical
  have hFirst :
      (front ++ a :: back).find? (fun x => decide (P x)) =
        some a :=
    List.find?_eq_some_iff_append.mpr
      ⟨by simpa using hA, front, back, rfl, by simpa using hFront⟩
  have hOther :
      (start ++ b :: rest).find? (fun x => decide (P x)) =
        some b :=
    List.find?_eq_some_iff_append.mpr
      ⟨by simpa using hB, start, rest, rfl, by simpa using hStart⟩
  rw [hSame, hOther] at hFirst
  exact (Option.some.inj hFirst).symm

/- There is no more than one first conflict. -/
theorem FirstConflict.unique
    {i j m n : Nat}
    {other : ConflictError}
    (hThis : FirstConflict rules i j e)
    (hOther : FirstConflict rules m n other) :
    e = other := by
  obtain ⟨hEarlier, hLeast, ⟨a, front, back, hA, hALine,
    hTargets, hFree⟩, ⟨b, hB, hBLine, hBase⟩, hOnly⟩ := hThis
  obtain ⟨hBefore, hMinimal, ⟨c, start, rest, hC, hCLine,
    hOthers, hNew⟩, ⟨d, hD, hDLine, hName⟩, hSole⟩ := hOther
  have hPlace : j = n := by
    rcases Nat.lt_trichotomy j n with hLt | hEq | hGt
    · exact
        absurd ⟨a, hA, by simp [hTargets]⟩
          (hMinimal j hLt i hEarlier _ ⟨b, hB, hBase⟩)
    · exact hEq
    · exact
        absurd ⟨c, hC, by simp [hOthers]⟩
          (hLeast n hGt m hBefore _ ⟨d, hD, hName⟩)
  subst hPlace
  cases hA.symm.trans hC
  have hClaimed :
      e.baseType = other.baseType :=
    eq_of_append_cons_eq
      (P := fun base => ∃ k < j, TargetsAt rules k base)
      (hTargets.symm.trans hOthers)
      (by simpa using hFree) (by simpa using hNew)
      ⟨i, hEarlier, b, hB, hBase⟩ ⟨m, hBefore, d, hD, hName⟩
  have hRule : m = i := by
    apply hOnly m hBefore
    rw [hClaimed]
    exact ⟨d, hD, hName⟩
  subst hRule
  cases hB.symm.trans hD
  obtain ⟨base, firstLine, secondLine⟩ := e
  obtain ⟨otherBase, otherFirst, otherSecond⟩ := other
  rw [ConflictError.mk.injEq]
  exact
    ⟨hClaimed, hBLine.symm.trans hDLine,
      hALine.symm.trans hCLine⟩

/- A conflict that is found is the first one. -/
theorem exists_firstConflict
    (hValidate : validate rules = .error e) :
    ∃ i j, FirstConflict rules i j e := by
  rcases exists_of_validate_eq_error hValidate with
    ⟨before, second, after, front, back, first, rfl, hApart,
      hTargets, hFree, hFirst, hTarget, hFirstLine,
      hSecondLine⟩
  rw [disjointTargets_iff] at hApart
  rcases List.mem_iff_getElem.mp hFirst with ⟨i, hLt, rfl⟩
  have hOnce : TargetsAt before i e.baseType :=
    ⟨_, List.getElem?_eq_getElem hLt, hTarget⟩
  refine
    ⟨i, before.length, ?_, ?_, ?_, ?_, ?_⟩
  · exact hLt
  · intro n hN k hK base hBase
    rw [targetsAt_append_iff (Nat.lt_trans hK hN)] at hBase
    rw [targetsAt_append_iff hN]
    exact hApart k n (Nat.ne_of_lt hK) base hBase
  · refine
      ⟨second, front, back, by simp, hSecondLine.symm,
        hTargets, ?_⟩
    intro base hMem k hK hTwice
    rw [targetsAt_append_iff hK] at hTwice
    rcases exists_targetsAt_iff.mp ⟨k, hTwice⟩ with
      ⟨rule, hRule, hBase⟩
    exact hFree base hMem rule hRule hBase
  · exact
      ⟨before[i],
        (List.getElem?_append_left hLt).trans
          (List.getElem?_eq_getElem hLt),
        hFirstLine.symm, hTarget⟩
  · intro k hK hAgain
    rw [targetsAt_append_iff hK] at hAgain
    by_contra hNe
    exact hApart k i hNe _ hAgain hOnce

/-
  Rules pass exactly if no two positions have a common target;
  otherwise the conflict is the first one.
-/
theorem validate_iff_firstConflict
    (rules : List Rule) :
    (validate rules = .ok () ↔
      ∀ i j, i ≠ j → ∀ base,
        TargetsAt rules i base → ¬ TargetsAt rules j base) ∧
      ∀ e,
        validate rules = .error e ↔
          ∃ i j, FirstConflict rules i j e := by
  refine
    ⟨validate_eq_ok_iff.trans disjointTargets_iff,
      fun e => ⟨exists_firstConflict, ?_⟩⟩
  rintro ⟨i, j, hFirst⟩
  cases hValidate : validate rules with
  | ok u =>
      -- The rules of a first conflict have a common target.
      rcases hFirst.first with ⟨a, hA, _, hTarget⟩
      rcases hFirst.second with ⟨b, _, _, hB, _, hTargets, _⟩
      have hApart :=
        disjointTargets_iff.mp (validate_eq_ok_iff.mp hValidate)
      exact
        absurd ⟨b, hB, by simp [hTargets]⟩
          (hApart i j (Nat.ne_of_lt hFirst.earlier) e.baseType
            ⟨a, hA, hTarget⟩)
  | error found =>
      rcases exists_firstConflict hValidate with ⟨m, n, hFound⟩
      rw [hFound.unique hFirst]

end LootFilter
