import LootFilter.Proofs.Filter.Grammar

/-
  Lines before a break and lines after it.

  A break closes the open block, so what stands after it is
  read as if it stood alone, only further down.  Reading does
  not look at the numbers of lines, it only hands them on:
  that is the first induction.  The second one takes the lines
  before the break one by one, whatever block is open.

  Main declarations:
    * `Instruction.moveDown`, `ParseError.moveDown`
    * `Instruction.ofLinesFrom_add`
    * `Instruction.ofLinesFrom_append_break`
    * `Instruction.ofLines_append_break`
-/

namespace LootFilter

------------------------------------------------------------
-- Further Down
------------------------------------------------------------

/- The refusal of a line that stands further down. -/
def ParseError.moveDown
    (distance : Nat)
    (e : ParseError) : ParseError :=
  ⟨e.line + distance, e.kind⟩

namespace Instruction

/- The block with its verb further down. -/
def moveDown
    (distance : Nat)
    (block : Instruction) : Instruction :=
  { block with sourceLine := block.sourceLine + distance }

/- What becomes of lines that stand further down. -/
def movedDown
    (distance : Nat) :
    Except ParseError (List Instruction) →
      Except ParseError (List Instruction)
| .error e => .error (e.moveDown distance)
| .ok blocks => .ok (blocks.map (moveDown distance))

/- A closed block is further down with those after it. -/
theorem movedDown_map
    (distance : Nat)
    (closed : Option Instruction)
    (result : Except ParseError (List Instruction)) :
    movedDown distance (result.map (closed.toList ++ ·)) =
      (movedDown distance result).map
        ((closed.map (moveDown distance)).toList ++ ·) := by
  cases result with
  | error e => rfl
  | ok blocks => cases closed <;> rfl

/-
  Lines are read alike wherever they stand, with the open
  block as far down as they are.
-/
theorem ofLinesFrom_add
    (number distance : Nat)
    (opened : Option Instruction)
    (lines : List (List Char)) :
    ofLinesFrom (number + distance)
        (opened.map (moveDown distance)) lines =
      movedDown distance (ofLinesFrom number opened lines) := by
  induction lines generalizing number opened with
  | nil => cases opened <;> rfl
  | cons line lines ih =>
      have hNumber :
          number + distance + 1 = number + 1 + distance :=
        Nat.add_right_comm number distance 1
      cases hKind : LineKind.ofLine line with
      | gap =>
          have hRest := ih (number + 1) none
          simp only [Option.map_none] at hRest
          simp only [ofLinesFrom, hKind, hNumber, hRest,
            movedDown_map]
      | property content =>
          cases opened with
          | none => simp only [ofLinesFrom, hKind]; rfl
          | some block =>
              cases hRead : Property.ofContent content with
              | error kind =>
                  simp only [ofLinesFrom, hKind, hRead,
                    Option.map_some]
                  rfl
              | ok p =>
                  simp only [ofLinesFrom, hKind, hRead,
                    Option.map_some, hNumber]
                  exact ih (number + 1) (some (block.push p))
      | heading content =>
          cases opened with
          | some block => simp only [ofLinesFrom, hKind]; rfl
          | none =>
              cases hRead : Verb.ofContent content with
              | error kind =>
                  simp only [ofLinesFrom, hKind, hRead,
                    Option.map_none]
                  rfl
              | ok verb =>
                  simp only [ofLinesFrom, hKind, hRead,
                    Option.map_none, hNumber]
                  exact ih (number + 1) (some ⟨number, verb, []⟩)

------------------------------------------------------------
-- Across a Break
------------------------------------------------------------

/-
  Lines with a break in between are read up to the break, and
  then those after it with no block open.
-/
theorem ofLinesFrom_append_break
    {line : List Char}
    (hBreak : Line.IsBreak line)
    (number : Nat)
    (opened : Option Instruction)
    (before after : List (List Char)) :
    ofLinesFrom number opened (before ++ line :: after) =
      (ofLinesFrom number opened before >>= fun blocks =>
        (ofLinesFrom (number + before.length + 1) none
          after).map (blocks ++ ·)) := by
  induction before generalizing number opened with
  | nil =>
      have hGap := LineKind.ofLine_eq_gap_iff.mpr hBreak
      simp only [List.nil_append, ofLinesFrom, hGap]
      rfl
  | cons first before ih =>
      have hNumber :
          number + (first :: before).length + 1 =
            number + 1 + before.length + 1 := by
        rw [List.length_cons]
        omega
      rw [List.cons_append]
      rcases refuses_or_exists_next number opened first with
        ⟨kind, _, hStop⟩ | ⟨next, closed, _, hStep⟩
      · rw [hStop, hStop]
        rfl
      · rw [hStep, hStep, ih, hNumber]
        cases ofLinesFrom (number + 1) next before with
        | error e => rfl
        | ok blocks =>
            cases ofLinesFrom (number + 1 + before.length + 1)
                none after with
            | error e => rfl
            | ok more =>
                exact
                  congrArg Except.ok
                    (List.append_assoc closed blocks more).symm

/-
  Lines on both sides of a break are read on their own.  If
  those before it are refused, the whole is refused for the
  same reason at the same line.  Otherwise those after it are
  read, or refused, further down by the lines in front.
-/
theorem ofLines_append_break
    {line : String}
    (hBreak : Line.IsBreak line.toList)
    (before after : List String) :
    (∀ e,
      ofLines before = .error e →
        ofLines (before ++ [line] ++ after) = .error e) ∧
    (∀ blocks e,
      ofLines before = .ok blocks →
        ofLines after = .error e →
          ofLines (before ++ [line] ++ after) =
            .error ⟨e.line + before.length + 1, e.kind⟩) ∧
    ∀ blocks more,
      ofLines before = .ok blocks →
        ofLines after = .ok more →
          ofLines (before ++ [line] ++ after) =
            .ok (blocks ++
              more.map (moveDown (before.length + 1))) := by
  have hWhole :
      ofLines (before ++ [line] ++ after) =
        (ofLines before >>= fun blocks =>
          (movedDown (before.length + 1) (ofLines after)).map
            (blocks ++ ·)) := by
    have hAfter :=
      ofLinesFrom_add 1 (before.length + 1) none
        (after.map String.toList)
    have hSplit :=
      ofLinesFrom_append_break hBreak 1 none
        (before.map String.toList) (after.map String.toList)
    rw [List.length_map, Nat.add_assoc, ← Option.map_none,
      hAfter] at hSplit
    simpa [ofLines] using hSplit
  refine ⟨?_, ?_, ?_⟩
  · intro e hBefore
    rw [hWhole, hBefore]
    rfl
  · intro blocks e hBefore hAfter
    rw [hWhole, hBefore, hAfter]
    rfl
  · intro blocks more hBefore hAfter
    rw [hWhole, hBefore, hAfter]
    rfl

/- A comment closes a block, and the next one is found. -/
theorem ofLines_append_break_comment :
    Line.IsBreak "# caps".toList ∧
      ofLines ["Hide", "    BaseType Cap"] =
        .ok [⟨1, .hideItem, [⟨.baseType, "Cap"⟩]⟩] ∧
      ofLines ["", "Show"] = .ok [⟨2, .showItem, []⟩] ∧
      ofLines
          (["Hide", "    BaseType Cap"] ++ ["# caps"] ++
            ["", "Show"]) =
        .ok [⟨1, .hideItem, [⟨.baseType, "Cap"⟩]⟩,
          ⟨5, .showItem, []⟩] := by
  have hBreak : Line.IsBreak "# caps".toList := by decide
  have hBefore :
      ofLines ["Hide", "    BaseType Cap"] =
        .ok [⟨1, .hideItem, [⟨.baseType, "Cap"⟩]⟩] := by
    decide +kernel
  have hAfter :
      ofLines ["", "Show"] = .ok [⟨2, .showItem, []⟩] := by
    decide +kernel
  exact
    ⟨hBreak, hBefore, hAfter,
      (ofLines_append_break hBreak _ _).2.2 _ _ hBefore hAfter⟩

end Instruction

end LootFilter
