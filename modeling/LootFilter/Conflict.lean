import LootFilter.Assoc
import LootFilter.Rule

/-
  This file checks that no base type is the target of two
  rules.

  Key definitions include:
    * `ConflictError`
    * `claimAll`
    * `validate`
-/

namespace LootFilter

/- A base type that two rules target, and their lines. -/
structure ConflictError where
  baseType : String
  firstLine : Nat
  secondLine : Nat
deriving DecidableEq, Repr

/- The wording of a conflict. -/
def ConflictError.message (e : ConflictError) : String :=
  "base '" ++ e.baseType ++ "' appears in rule at line " ++
    toString e.firstLine ++ " and line " ++
    toString e.secondLine

/-
  Claim base types for a rule, in order, on top of the claims
  of earlier rules.  The first one claimed before is an
  error.
-/
def claimAll
    (line : Nat)
    (claims : Assoc String Nat) :
    List String →
    Except ConflictError (Assoc String Nat)
| [] => .ok claims
| base :: bases =>
    match Assoc.find? base claims with
    | some earlier => .error ⟨base, earlier, line⟩
    | none => claimAll line (Assoc.set base line claims) bases

/- Claim the targets of the rules, rule by rule. -/
def claimRules
    (claims : Assoc String Nat) :
    List Rule → Except ConflictError (Assoc String Nat)
| [] => .ok claims
| rule :: rules =>
    match claimAll rule.sourceLine claims rule.targets with
    | .error e => .error e
    | .ok next => claimRules next rules

/- Check that no two rules share a target. -/
def validate (rules : List Rule) : Except ConflictError Unit :=
  (claimRules [] rules).map (fun _ => ())

end LootFilter
