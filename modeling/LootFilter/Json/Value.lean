import LootFilter.Assoc
import LootFilter.Json.Number

/-
  This file defines JSON values.  The members of an object
  keep the order in which their names were first given.

  Key definitions include:
    * `Json.Value`
    * `Json.Value.same`
    * `Json.Value.text?`
    * `Json.Value.items?`
    * `Json.Value.members?`
    * `Json.Value.member?`
    * `Json.Value.setMember`
-/

namespace LootFilter.Json

/- A JSON value. -/
inductive Value where
| null
| bool (b : Bool)
| number (n : Number)
| text (s : String)
| array (items : List Value)
| object (members : List (String × Value))
deriving Repr

instance : Inhabited Value := ⟨.null⟩

namespace Value

------------------------------------------------------------
-- Equality
------------------------------------------------------------

mutual

/- Whether two values are the same. -/
def same : Value → Value → Bool
| .null, .null => true
| .bool a, .bool b => a == b
| .number m, .number n => m == n
| .text s, .text t => s == t
| .array vs, .array ws => sameItems vs ws
| .object ms, .object ns => sameMembers ms ns
| _, _ => false

/- Whether items are the same, one by one. -/
def sameItems : List Value → List Value → Bool
| [], [] => true
| v :: vs, w :: ws => same v w && sameItems vs ws
| _, _ => false

/- Whether members are the same, one by one. -/
def sameMembers :
    List (String × Value) → List (String × Value) → Bool
| [], [] => true
| (j, v) :: ms, (k, w) :: ns =>
    j == k && same v w && sameMembers ms ns
| _, _ => false

end

mutual

/- Values are the same if they are equal. -/
theorem same_iff : ∀ v w : Value, same v w = true ↔ v = w
| .null, w => by cases w <;> simp [same]
| .bool a, w => by cases w <;> simp [same]
| .number m, w => by cases w <;> simp [same]
| .text s, w => by cases w <;> simp [same]
| .array vs, w => by cases w <;> simp [same, sameItems_iff vs]
| .object ms, w => by
    cases w <;> simp [same, sameMembers_iff ms]

/- So are items. -/
theorem sameItems_iff :
    ∀ vs ws : List Value, sameItems vs ws = true ↔ vs = ws
| [], ws => by cases ws <;> simp [sameItems]
| v :: vs, ws => by
    cases ws <;> simp [sameItems, same_iff v, sameItems_iff vs]

/- And so are members. -/
theorem sameMembers_iff :
    ∀ ms ns : List (String × Value),
      sameMembers ms ns = true ↔ ms = ns
| [], ns => by cases ns <;> simp [sameMembers]
| (j, v) :: ms, ns => by
    cases ns <;>
      simp [sameMembers, same_iff v, sameMembers_iff ms,
        Prod.ext_iff]

end

instance : DecidableEq Value := fun v w =>
  decidable_of_iff (same v w = true) (same_iff v w)

------------------------------------------------------------
-- Parts
------------------------------------------------------------

/- The text of a text value. -/
def text? : Value → Option String
| .text s => some s
| _ => none

/- The items of an array. -/
def items? : Value → Option (List Value)
| .array items => some items
| _ => none

/- The members of an object. -/
def members? : Value → Option (Assoc String Value)
| .object members => some members
| _ => none

/- The member of an object with a given name. -/
def member? (name : String) (v : Value) : Option Value := do
  Assoc.find? name (← v.members?)

/- The text stored under a name. -/
def memberText?
    (name : String)
    (v : Value) : Option String := do
  (← v.member? name).text?

/- An object with a member given a value; others stay. -/
def setMember
    (v : Value)
    (name : String)
    (a : Value) : Value :=
  match v with
  | .object members => .object (Assoc.set name a members)
  | other => other

/- An integer as a value. -/
def ofInt (n : Int) : Value :=
  .number (.int n)

end Value

end LootFilter.Json
