/-
  This file defines the closed vocabularies of the filter
  language and of the item data.  Each vocabulary lists its
  words in a fixed order, and reading a word is searching
  that list for the exact text.

  Key definitions include:
    * `Keyword`
    * `Keyword.find?`
    * `Keyword.read`
    * `KeywordError`
    * `Verb`
    * `PropertyKind`
    * `RelationalOp`
    * `ItemClass`
    * `VisualEffect`
-/

namespace LootFilter

------------------------------------------------------------
-- Vocabularies
------------------------------------------------------------

/-
  A vocabulary: its name in messages, its words in their
  fixed order, and the spelling of each word.  Every word is
  listed, and no two words are spelled alike.
-/
class Keyword (α : Type) where
  family : String
  all : List α
  text : α → String
  mem_all : ∀ word : α, word ∈ all
  text_injective : ∀ a b : α, text a = text b → a = b

/- A text that is no word of the vocabulary asked for. -/
structure KeywordError where
  expected : String
  found : String
deriving DecidableEq, Repr

/- The wording of a vocabulary error. -/
def KeywordError.message (e : KeywordError) : String :=
  "unknown " ++ e.expected ++ " '" ++ e.found ++ "'"

namespace Keyword

variable {α : Type} [Keyword α]

/- The word spelled exactly like the given text, if any. -/
def find?
    (α : Type)
    [Keyword α]
    (s : String) : Option α :=
  (all : List α).find? (fun word => text word == s)

/- The word spelled like the text, or the reason there is none. -/
def read
    (α : Type)
    [Keyword α]
    (s : String) : Except KeywordError α :=
  match find? α s with
  | some word => .ok word
  | none => .error ⟨family α, s⟩

/- A text is read as a word exactly when it is its spelling. -/
theorem find?_eq_some_iff
    {s : String}
    {word : α} :
    find? α s = some word ↔ text word = s := by
  constructor
  · intro h
    simpa using List.find?_some h
  · intro h
    cases hFind : find? α s with
    | none =>
        have hNone :=
          List.find?_eq_none.mp hFind word (mem_all word)
        simp [h] at hNone
    | some other =>
        have hOther : text other = s := by
          simpa using List.find?_some hFind
        rw [text_injective other word (hOther.trans h.symm)]

/- The spelling of a word is read as that word. -/
@[simp]
theorem find?_text (word : α) :
    find? α (text word) = some word :=
  find?_eq_some_iff.mpr rfl

/- A text is refused exactly when no word is spelled like it. -/
theorem find?_eq_none_iff {s : String} :
    find? α s = none ↔ ∀ word : α, text word ≠ s := by
  constructor
  · intro h word hWord
    rw [find?_eq_some_iff.mpr hWord] at h
    cases h
  · intro h
    cases hFind : find? α s with
    | none => rfl
    | some word =>
        exact absurd (find?_eq_some_iff.mp hFind) (h word)

end Keyword

------------------------------------------------------------
-- Words of the filter language
------------------------------------------------------------

/- What a block does to the items that it selects. -/
inductive Verb where
| showItem
| hideItem
| renameItem
deriving DecidableEq, Repr

instance : Keyword Verb where
  family := "verb"
  all := [.showItem, .hideItem, .renameItem]
  text
  | .showItem => "Show"
  | .hideItem => "Hide"
  | .renameItem => "Rename"
  mem_all word := by cases word <;> simp
  text_injective a b := by cases a <;> cases b <;> simp

/- The keyword of an indented line below a verb. -/
inductive PropertyKind where
| baseType
| itemClass
| newName
| addVfx
| playSound
deriving DecidableEq, Repr

instance : Keyword PropertyKind where
  family := "property"
  all := [.baseType, .itemClass, .newName, .addVfx, .playSound]
  text
  | .baseType => "BaseType"
  | .itemClass => "Class"
  | .newName => "To"
  | .addVfx => "AddVfx"
  | .playSound => "PlaySound"
  mem_all word := by cases word <;> simp
  text_injective a b := by cases a <;> cases b <;> simp

/- How a name fragment is compared with an item's name. -/
inductive RelationalOp where
| equal
deriving DecidableEq, Repr

instance : Keyword RelationalOp where
  family := "relational operator"
  all := [.equal]
  text
  | .equal => "=="
  mem_all word := by cases word; simp
  text_injective a b := by cases a; cases b; simp

/- The visual effects that a rule can put on an item. -/
inductive VisualEffect where
| beam
| glitter
| flash
deriving DecidableEq, Repr

instance : Keyword VisualEffect where
  family := "vfx"
  all := [.beam, .glitter, .flash]
  text
  | .beam => "Beam"
  | .glitter => "Glitter"
  | .flash => "Flash"
  mem_all word := by cases word <;> simp
  text_injective a b := by cases a <;> cases b <;> simp

------------------------------------------------------------
-- Item classes
------------------------------------------------------------

/- The groups of base types that the item data knows. -/
inductive ItemClass where
| unknown
| helmet
| chest
| gloves
| shield
| boots
| ring
| amulet
| belt
| rune
deriving DecidableEq, Repr

instance : Keyword ItemClass where
  family := "class"
  all :=
    [.unknown, .helmet, .chest, .gloves, .shield, .boots,
      .ring, .amulet, .belt, .rune]
  text
  | .unknown => "N/A"
  | .helmet => "Helmet"
  | .chest => "Chest"
  | .gloves => "Gloves"
  | .shield => "Shield"
  | .boots => "Boots"
  | .ring => "Ring"
  | .amulet => "Amulet"
  | .belt => "Belt"
  | .rune => "Rune"
  mem_all word := by cases word <;> simp
  text_injective a b := by cases a <;> cases b <;> simp

/- The class named as a log line names it. -/
def ItemClass.label : ItemClass → String
| .unknown => "Unknown"
| c => Keyword.text c

end LootFilter
