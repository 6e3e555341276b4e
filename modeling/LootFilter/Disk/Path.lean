import LootFilter.Text.Lines

/-
  This file defines paths as they are written: the texts
  between the slashes, empty ones included.  Two spellings
  with the same components name the same file, and a spelling
  is kept because messages show it.

  Key definitions include:
    * `Path`
    * `Path.ofText`
    * `Path.text`
    * `Path.join`
    * `Path.components`
    * `Path.mapName`
    * `Path.withName`
-/

namespace LootFilter

/- A path by the texts between its slashes. -/
structure Path where
  segments : List String
deriving DecidableEq, Repr

namespace Path

------------------------------------------------------------
-- Spelling
------------------------------------------------------------

/- The path that a text spells. -/
def ofText (s : String) : Path :=
  ⟨(Text.splitAt '/' s.toList).map String.ofList⟩

/- The text of a path. -/
def text (p : Path) : String :=
  String.ofList
    (Text.joinWith ['/'] (p.segments.map String.toList))

------------------------------------------------------------
-- Combination
------------------------------------------------------------

/- Whether a path starts at the root. -/
def IsAbsolute (p : Path) : Prop :=
  p.segments.head? = some "" ∧ 1 < p.segments.length

instance (p : Path) : Decidable p.IsAbsolute := by
  unfold IsAbsolute
  infer_instance

/- The segments without the empty one after a last slash. -/
def stem (p : Path) : List String :=
  if p.segments.getLast? = some "" then
    p.segments.dropLast
  else
    p.segments

/-
  A path taken from inside another.  An absolute path stays
  what it is.
-/
def join (p q : Path) : Path :=
  if q.IsAbsolute then q else ⟨p.stem ++ q.segments⟩

/- The path of something below a path. -/
def below (p : Path) (names : List String) : Path :=
  p.join ⟨names⟩

/- Whether a segment leads anywhere. -/
def isStep (segment : String) : Bool :=
  segment != "" && segment != "."

/- The path with its last name changed, spelled as it is. -/
def mapName (f : String → String) (p : Path) : Path :=
  match p.segments.getLast? with
  | none => p
  | some name => ⟨p.segments.dropLast ++ [f name]⟩

/-
  The segments in front of the last one, without those at
  their end that stay in place.  A path that has only such in
  front keeps its first.
-/
def front (p : Path) : List String :=
  let above := p.segments.dropLast
  match above.reverse.dropWhile (fun s => !isStep s) with
  | [] => above.take 1
  | kept => kept.reverse

/- The path of something else in the folder of a path. -/
def withName (p : Path) (name : String) : Path :=
  ⟨p.front ++ [name]⟩

------------------------------------------------------------
-- Components
------------------------------------------------------------

/-
  The components of a path: its segments without repeated
  slashes and without segments that stay in place.  A first
  segment tells whether the path starts at the root, and a
  dot there is kept.
-/
def components (p : Path) : List String :=
  match p.segments with
  | [] => []
  | first :: rest =>
      if first = "." ∨ (first = "" ∧ rest ≠ []) then
        first :: rest.filter isStep
      else
        (first :: rest).filter isStep

end Path

end LootFilter
