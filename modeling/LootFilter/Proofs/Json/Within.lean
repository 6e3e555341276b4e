import LootFilter.Proofs.Entries
import LootFilter.Proofs.Effects

/-
  The values that documents have.

  The integers of such a value are held by 64 bits, the names
  in each of its objects are distinct, and only so many arrays
  and objects stand inside one another.  Putting a shallow
  value in the place of a member leads to no other values.

  Main declarations:
    * `Json.Value.numbers`
    * `Json.Value.Within`
    * `Json.Document.within_of_valueWithin`
    * `Json.Value.Within.setMember`
-/

namespace LootFilter.Json

------------------------------------------------------------
-- Numbers
------------------------------------------------------------

namespace Number

/- Whether a number is no floating point number. -/
def IsWhole : Number → Prop
| .int _ => True
| .double _ _ => False

instance : DecidablePred IsWhole
| .int _ => isTrue trivial
| .double _ _ => isFalse id

/-
  Whether a number is no integer of more than 64 bits: at
  least minus two to the power 63, below two to the power 64.
-/
def Fits : Number → Prop
| .int n => -0x8000000000000000 ≤ n ∧ n < 0x10000000000000000
| .double _ _ => True

end Number

namespace Numeral

/- What is gathered of digits stays in its bound. -/
theorem gather_lt
    {significand : Nat}
    (hBound : significand < significandBound)
    (ds : List Nat) :
    (gather significand ds).1 < significandBound := by
  induction ds generalizing significand with
  | nil => exact hBound
  | cons d ds ih =>
      unfold gather
      split
      · rename_i hMore
        exact ih hMore
      · exact hBound

/- So the number of a numeral is held by 64 bits. -/
theorem fits_of_number?
    {n : Numeral}
    {x : Number}
    (hNumber : n.number? = some x) :
    x.Fits := by
  have hWhole : (gather 0 n.whole).1 < significandBound :=
    gather_lt (by decide) n.whole
  unfold significandBound at hWhole
  unfold number? at hNumber
  dsimp only at hNumber
  split at hNumber
  · rename_i hInteger
    obtain ⟨_, _, _, hSign⟩ := hInteger
    cases hNumber
    unfold Number.Fits
    cases hNegative : n.negative with
    | false =>
        simp only [Bool.false_eq_true, if_false]
        omega
    | true =>
        simp only [hNegative, Bool.true_eq_false, false_or,
          negativeBound] at hSign
        simp only [if_true]
        omega
  · rw [Option.map_eq_some_iff] at hNumber
    rcases hNumber with ⟨magnitude, _, rfl⟩
    trivial

end Numeral

namespace Value

mutual

/- The numbers in a value. -/
def numbers : Value → List Number
| .number n => [n]
| .array vs => itemNumbers vs
| .object ms => memberNumbers ms
| _ => []

/- The numbers in items. -/
def itemNumbers : List Value → List Number
| [] => []
| v :: vs => numbers v ++ itemNumbers vs

/- The numbers in members. -/
def memberNumbers : List (String × Value) → List Number
| [] => []
| (_, v) :: ms => numbers v ++ memberNumbers ms

end

/- The numbers in an array are those in its items. -/
theorem mem_numbers_array_iff
    {n : Number}
    {vs : List Value} :
    n ∈ (Value.array vs).numbers ↔ ∃ v ∈ vs, n ∈ v.numbers := by
  rw [numbers]
  induction vs with
  | nil => simp [itemNumbers]
  | cons v vs ih => simp [itemNumbers, ih]

/- The numbers in an object are those in its members. -/
theorem mem_numbers_object_iff
    {n : Number}
    {ms : Assoc String Value} :
    n ∈ (Value.object ms).numbers ↔
      ∃ m ∈ ms, n ∈ m.2.numbers := by
  rw [numbers]
  induction ms with
  | nil => simp [memberNumbers]
  | cons m ms ih => simp [memberNumbers, ih]

------------------------------------------------------------
-- Values
------------------------------------------------------------

/-
  Whether a value is one of a document in which no more than
  the given number of arrays and objects are open at a time.
-/
inductive Within : Nat → Value → Prop where
| null {depth : Nat} :
    Within depth .null
| bool {depth : Nat} (b : Bool) :
    Within depth (.bool b)
| number {depth : Nat} {n : Number} (hFits : n.Fits) :
    Within depth (.number n)
| text {depth : Nat} (s : String) :
    Within depth (.text s)
| array {depth : Nat} {vs : List Value}
    (hItems : ∀ v ∈ vs, Within depth v) :
    Within (depth + 1) (.array vs)
| object {depth : Nat} {ms : Assoc String Value}
    (hKeys : (Assoc.keys ms).Nodup)
    (hMembers : ∀ m ∈ ms, Within depth m.2) :
    Within (depth + 1) (.object ms)

end Value

------------------------------------------------------------
-- Values of Documents
------------------------------------------------------------

namespace Document

variable {depth : Nat}

/- Items that have values have one each. -/
theorem itemsWithin_eq_ok_iff
    {ds : List Document}
    {vs : List Value} :
    itemsWithin depth ds = .ok vs ↔
      List.Forall₂ (fun d v => valueWithin depth d = .ok v)
        ds vs := by
  induction ds generalizing vs with
  | nil =>
      rw [itemsWithin, List.forall₂_nil_left_iff,
        Except.ok.injEq, eq_comm]
  | cons d ds ih =>
      rw [itemsWithin, List.forall₂_cons_left_iff,
        bind_eq_ok_iff]
      simp only [bind_eq_ok_iff, ih]
      constructor
      · rintro ⟨v, hFirst, rest, hRest, hDone⟩
        cases hDone
        exact ⟨v, rest, hFirst, hRest, rfl⟩
      · rintro ⟨v, rest, hFirst, hRest, rfl⟩
        exact ⟨v, hFirst, rest, hRest, rfl⟩

/- What all values of documents are, those of items are. -/
theorem forall_of_itemsWithin
    {P : Value → Prop}
    (hEach : ∀ d v, valueWithin depth d = .ok v → P v)
    {ds : List Document}
    {vs : List Value}
    (hItems : itemsWithin depth ds = .ok vs) :
    ∀ v ∈ vs, P v := by
  intro v hMem
  rcases exists_mem_of_forall₂
      (itemsWithin_eq_ok_iff.mp hItems).flip hMem with
    ⟨d, _, hValue⟩
  exact hEach d v hValue

/- The same holds of members, whose names stay distinct. -/
theorem forall_of_membersWithin
    {P : Value → Prop}
    (hEach : ∀ d v, valueWithin depth d = .ok v → P v)
    {done ms : Assoc String Value}
    {ds : List (Literal × Document)}
    (hKeys : (Assoc.keys done).Nodup)
    (hDone : ∀ m ∈ done, P m.2)
    (hMembers : membersWithin depth done ds = .ok ms) :
    (Assoc.keys ms).Nodup ∧ ∀ m ∈ ms, P m.2 := by
  induction ds generalizing done with
  | nil =>
      rw [membersWithin] at hMembers
      cases hMembers
      exact ⟨hKeys, hDone⟩
  | cons member ds ih =>
      obtain ⟨name, d⟩ := member
      rw [membersWithin] at hMembers
      rcases bind_eq_ok_iff.mp hMembers with
        ⟨key, _, hMembers⟩
      rcases bind_eq_ok_iff.mp hMembers with
        ⟨v, hValue, hMembers⟩
      apply ih (Assoc.nodup_keys_set hKeys key v) _ hMembers
      intro m hMem
      rcases Assoc.eq_or_mem_of_mem_set hMem with rfl | hOld
      · exact hEach d v hValue
      · exact hDone m hOld

/- The value of a document is one. -/
theorem within_of_valueWithin
    {d : Document}
    {v : Value}
    (hValue : valueWithin depth d = .ok v) :
    v.Within depth := by
  induction depth using Nat.strongRecOn generalizing d v with
  | ind depth ih =>
      cases d with
      | null =>
          cases hValue
          exact .null
      | bool b =>
          cases hValue
          exact .bool b
      | number n =>
          rcases valueWithin_number_eq_ok_iff.mp hValue with
            ⟨x, hNumber, rfl⟩
          exact .number (Numeral.fits_of_number? hNumber)
      | text l =>
          rcases valueWithin_text_eq_ok_iff.mp hValue with
            ⟨s, _, rfl⟩
          exact .text s
      | array items fault =>
          rcases valueWithin_array_eq_ok_iff.mp hValue with
            ⟨below, vs, rfl, _, hItems, rfl⟩
          have hBelow :
              ∀ d v, valueWithin below d = .ok v → v.Within below :=
            fun _ _ => ih below (Nat.lt_succ_self below)
          exact .array (forall_of_itemsWithin hBelow hItems)
      | object members fault =>
          rcases valueWithin_object_eq_ok_iff.mp hValue with
            ⟨below, ms, rfl, _, hMembers, rfl⟩
          have hBelow :
              ∀ d v, valueWithin below d = .ok v → v.Within below :=
            fun _ _ => ih below (Nat.lt_succ_self below)
          have hBoth :=
            forall_of_membersWithin hBelow
              (by simp [Assoc.keys]) (by simp) hMembers
          exact .object hBoth.1 hBoth.2
      | broken read skip => cases hValue

/- Whatever is read of a text is the value of a document. -/
theorem within_of_value
    {s : String}
    {v : Value}
    (hDecode : decode value s = .ok v) :
    v.Within maxDepth :=
  within_of_valueWithin (decode_eq_ok_iff.mp hDecode).1

/- An array of values that are read is one as well. -/
theorem within_of_values
    {s : String}
    {vs : List Value}
    (hDecode : decode values s = .ok vs) :
    (Value.array vs).Within maxDepth :=
  .array
    (forall_of_itemsWithin (fun _ _ => within_of_valueWithin)
      (itemsWithin_of_decode hDecode))

end Document

------------------------------------------------------------
-- Parts of Values
------------------------------------------------------------

namespace Value

variable {depth : Nat} {v a : Value} {name : String}

/- Nothing is such a value, however deep. -/
@[simp] theorem within_null : Value.null.Within depth :=
  .null

/- So are booleans. -/
@[simp] theorem within_bool (b : Bool) :
    (Value.bool b).Within depth :=
  .bool b

/- And so are texts. -/
@[simp] theorem within_text (s : String) :
    (Value.text s).Within depth :=
  .text s

/- A number is one if 64 bits hold it. -/
@[simp] theorem within_number_iff
    {n : Number} :
    (Value.number n).Within depth ↔ n.Fits := by
  constructor
  · intro hValue
    cases hValue with
    | number hFits => exact hFits
  · exact .number

/- An array is one if its items are. -/
@[simp] theorem within_array_iff
    {vs : List Value} :
    (Value.array vs).Within (depth + 1) ↔
      ∀ v ∈ vs, v.Within depth := by
  constructor
  · intro hValue
    cases hValue with
    | array hItems => exact hItems
  · exact .array

/- An object is one if its members are, by distinct names. -/
@[simp] theorem within_object_iff
    {ms : Assoc String Value} :
    (Value.object ms).Within (depth + 1) ↔
      (Assoc.keys ms).Nodup ∧ ∀ m ∈ ms, m.2.Within depth := by
  constructor
  · intro hValue
    cases hValue with
    | object hKeys hMembers => exact ⟨hKeys, hMembers⟩
  · exact fun hBoth => .object hBoth.1 hBoth.2

/- The members of an object are values with less inside. -/
theorem Within.member?
    (hValue : v.Within (depth + 1))
    (hMember : v.member? name = some a) :
    a.Within depth := by
  rcases exists_of_member? hMember with ⟨ms, rfl, hFind⟩
  exact
    (within_object_iff.mp hValue).2 _
      (Assoc.mem_of_find?_eq_some hFind)

/- A member may be given such a value. -/
theorem Within.setMember
    (hValue : v.Within (depth + 1))
    (hMember : a.Within depth)
    (name : String) :
    (v.setMember name a).Within (depth + 1) := by
  cases v with
  | object ms =>
      rcases within_object_iff.mp hValue with ⟨hKeys, hMembers⟩
      apply Within.object (Assoc.nodup_keys_set hKeys name a)
      intro m hMem
      rcases Assoc.eq_or_mem_of_mem_set hMem with rfl | hOld
      · exact hMember
      · exact hMembers m hOld
  | _ => exact hValue

/- An array may be given one more such item. -/
theorem Within.concat
    {vs : List Value}
    (hValue : (Value.array vs).Within (depth + 1))
    (hItem : a.Within depth) :
    (Value.array (vs ++ [a])).Within (depth + 1) := by
  rw [within_array_iff, List.forall_mem_append,
    List.forall_mem_singleton]
  exact ⟨within_array_iff.mp hValue, hItem⟩

end Value

end LootFilter.Json
