/-
  This file cuts texts into pieces: into lines at line
  feeds, and into fields at a single separator.

  Key definitions include:
    * `Text.lines`
    * `Text.splitAt`
    * `Text.joinWith`
-/

namespace LootFilter.Text

------------------------------------------------------------
-- Lines
------------------------------------------------------------

/-
  The lines of a text.  A line ends at a line feed, and one
  carriage return directly before the line feed belongs to
  the line's end.  A last line without a line feed keeps
  everything, and a final line feed opens no further line.
-/
def lines : List Char → List (List Char)
| [] => []
| '\n' :: cs => [] :: lines cs
| '\r' :: '\n' :: cs => [] :: lines cs
| c :: cs =>
    match lines cs with
    | [] => [[c]]
    | line :: rest => (c :: line) :: rest

------------------------------------------------------------
-- Fields
------------------------------------------------------------

/-
  The fields of a text between the occurrences of one
  separator.  There is always at least one field.
-/
def splitAt (sep : Char) : List Char → List (List Char)
| [] => [[]]
| c :: cs =>
    if c = sep then
      [] :: splitAt sep cs
    else
      match splitAt sep cs with
      | [] => [[c]]
      | field :: rest => (c :: field) :: rest

/- The fields of a text joined by a separator. -/
def joinWith (sep : List Char) : List (List Char) → List Char
| [] => []
| [field] => field
| field :: rest => field ++ sep ++ joinWith sep rest

/- A text has at least one field. -/
theorem splitAt_ne_nil (sep : Char) (cs : List Char) :
    splitAt sep cs ≠ [] := by
  cases cs with
  | nil => simp [splitAt]
  | cons c cs =>
      unfold splitAt
      split
      · simp
      · split <;> simp

/- Joining the fields of a text gives the text back. -/
theorem joinWith_splitAt (sep : Char) (cs : List Char) :
    joinWith [sep] (splitAt sep cs) = cs := by
  induction cs with
  | nil => simp [splitAt, joinWith]
  | cons c cs ih =>
      unfold splitAt
      split
      · rename_i h
        subst h
        cases hSplit : splitAt c cs with
        | nil => exact absurd hSplit (splitAt_ne_nil c cs)
        | cons field rest =>
            rw [hSplit] at ih
            simp [joinWith, ih]
      · cases hSplit : splitAt sep cs with
        | nil => exact absurd hSplit (splitAt_ne_nil sep cs)
        | cons field rest =>
            rw [hSplit] at ih
            cases rest with
            | nil => simpa [joinWith] using ih
            | cons next more =>
                simp only [joinWith] at ih ⊢
                rw [← ih]
                simp

end LootFilter.Text
