import LootFilter.Proofs.Filter.Lines
import Mathlib.Data.List.Forall2

/-
  The grammar of a source, and that reading accepts exactly it.

  A run is a longest sequence of lines without a break.  Each
  run has to be a verb with its properties, and the blocks of
  a source are those of its runs.  A block that is open takes
  in the rest of the run that it started; that is the step
  from lines to runs, and the induction is then on the runs.

  A source that is refused is refused at the first line at
  which nothing that follows could help.

  Main declarations:
    * `LineRun.MaximalIn`, `LineRun.Reads`
    * `LineRun.mem_listFrom_iff`
    * `Instruction.ofLinesFrom_none_eq_ok_iff`
    * `Instruction.Refuses`
    * `Instruction.Grammar`
    * `Instruction.grammar_ofLines`
-/

namespace LootFilter

------------------------------------------------------------
-- Runs
------------------------------------------------------------

/- Lines that follow each other, and the first one's number. -/
structure LineRun where
  start : Nat
  lines : List (List Char)

namespace LineRun

/-
  Whether a run is a longest one without a break, in a source
  whose first line has the given number: what stands next to
  it, if anything, is a break.
-/
structure MaximalFrom
    (number : Nat)
    (run : LineRun)
    (source : List (List Char)) : Prop where
  nonempty : run.lines ≠ []
  unbroken : ∀ line ∈ run.lines, ¬ Line.IsBreak line
  stands :
    ∃ before after,
      source = before ++ (run.lines ++ after) ∧
        run.start = number + before.length ∧
        (∀ line, before.getLast? = some line →
          Line.IsBreak line) ∧
        (∀ line, after.head? = some line →
          Line.IsBreak line)

/- Whether a run is a longest one, lines counted from one. -/
def MaximalIn
    (run : LineRun)
    (source : List (List Char)) : Prop :=
  run.MaximalFrom 1 source

/-
  Whether a run is a block: the keyword of its verb, and then
  one line for each property.
-/
def Reads
    (run : LineRun)
    (block : Instruction) : Prop :=
  block.sourceLine = run.start ∧
    ∃ first rest,
      run.lines = first :: rest ∧
        block.verb.StatedBy first ∧
        List.Forall₂ Property.StatedBy block.properties rest

------------------------------------------------------------
-- Finding the Runs
------------------------------------------------------------

/- The lines at the front without a break. -/
def front (lines : List (List Char)) : List (List Char) :=
  lines.takeWhile (fun line => ¬ Line.IsBreak line)

/- The lines after them. -/
def back (lines : List (List Char)) : List (List Char) :=
  lines.dropWhile (fun line => ¬ Line.IsBreak line)

variable {number : Nat} {run : LineRun}
variable {line : List Char} {lines body rest : List (List Char)}

/- No line at the front is a break. -/
theorem not_isBreak_of_mem_front
    (hMem : line ∈ front lines) :
    ¬ Line.IsBreak line := by
  simpa using List.mem_takeWhile_imp hMem

/- The lines after them start with a break, if there are any. -/
theorem isBreak_of_head?_back
    (hHead : (back lines).head? = some line) :
    Line.IsBreak line := by
  have hFirst :=
    List.head?_dropWhile_not
      (fun line => decide (¬ Line.IsBreak line)) lines
  unfold back at hHead
  rw [hHead] at hFirst
  simpa using hFirst

/- The two parts make up the lines. -/
theorem front_append_back (lines : List (List Char)) :
    front lines ++ back lines = lines :=
  List.takeWhile_append_dropWhile

/- Lines without a break before a break are the front. -/
theorem front_append
    (hBody : ∀ line ∈ body, ¬ Line.IsBreak line)
    (hRest :
      ∀ line, rest.head? = some line → Line.IsBreak line) :
    front (body ++ rest) = body := by
  unfold front
  rw [List.takeWhile_append_of_pos (by simpa using hBody)]
  cases rest with
  | nil => simp
  | cons first rest => simp [hRest first rfl]

/- And the rest is what comes after the front. -/
theorem back_append
    (hBody : ∀ line ∈ body, ¬ Line.IsBreak line)
    (hRest :
      ∀ line, rest.head? = some line → Line.IsBreak line) :
    back (body ++ rest) = rest := by
  have hWhole := front_append_back (body ++ rest)
  rw [front_append hBody hRest] at hWhole
  exact List.append_cancel_left hWhole

/- The longest runs of lines, the first one's number given. -/
def listFrom
    (number : Nat) :
    List (List Char) → List LineRun
| [] => []
| line :: lines =>
    if Line.IsBreak line then
      listFrom (number + 1) lines
    else
      ⟨number, line :: front lines⟩ ::
        listFrom (number + 1 + (front lines).length)
          (back lines)
termination_by lines => lines.length
decreasing_by
  · simp
  · have hLength :=
      congrArg List.length (front_append_back lines)
    rw [List.length_append] at hLength
    rw [List.length_cons]
    omega

/- A break at the front is in no run and before all of them. -/
theorem maximalFrom_cons_iff
    (hBreak : Line.IsBreak line) :
    run.MaximalFrom number (line :: lines) ↔
      run.MaximalFrom (number + 1) lines := by
  constructor
  · rintro ⟨hSome, hUnbroken, before, after, hSource, hStart,
      hBefore, hAfter⟩
    cases before with
    | nil =>
        -- The run would start with the break.
        exfalso
        cases hLines : run.lines with
        | nil => exact hSome hLines
        | cons first others =>
            rw [hLines] at hSource
            cases hSource
            exact hUnbroken line (by simp [hLines]) hBreak
    | cons first before =>
        cases hSource
        refine ⟨hSome, hUnbroken, before, after, rfl, ?_, ?_,
          hAfter⟩
        · rw [hStart, List.length_cons]
          omega
        · intro last hLast
          apply hBefore
          rw [List.getLast?_cons, hLast, Option.getD_some]
  · rintro ⟨hSome, hUnbroken, before, after, rfl, hStart,
      hBefore, hAfter⟩
    refine ⟨hSome, hUnbroken, line :: before, after, by simp,
      ?_, ?_, hAfter⟩
    · rw [hStart, List.length_cons]
      omega
    · intro last hLast
      rw [List.getLast?_cons, Option.some.injEq] at hLast
      cases hEnd : before.getLast? with
      | none => simpa [hEnd, ← hLast] using hBreak
      | some other =>
          rw [hEnd, Option.getD_some] at hLast
          exact hBefore last (hLast ▸ hEnd)

/-
  Lines without a break, up to a break or the end, are the
  first run; every other one stands in what follows.
-/
theorem maximalFrom_append_iff
    (hSome : body ≠ [])
    (hBody : ∀ line ∈ body, ¬ Line.IsBreak line)
    (hRest :
      ∀ line, rest.head? = some line → Line.IsBreak line) :
    run.MaximalFrom number (body ++ rest) ↔
      run = ⟨number, body⟩ ∨
        run.MaximalFrom (number + body.length) rest := by
  constructor
  · rintro ⟨hRun, hUnbroken, before, after, hSource, hStart,
      hBefore, hAfter⟩
    rcases List.append_eq_append_iff.mp hSource with
      ⟨others, rfl, hSplit⟩ | ⟨others, rfl, hSplit⟩
    · -- The run stands after the body.
      right
      refine ⟨hRun, hUnbroken, others, after, hSplit, ?_, ?_,
        hAfter⟩
      · rw [hStart, List.length_append]
        omega
      · intro last hLast
        apply hBefore
        rw [List.getLast?_append, hLast, Option.some_or]
    · -- The run starts in the body, so nothing is before it.
      left
      have hNone : before = [] := by
        cases hEnd : before.getLast? with
        | none => exact List.getLast?_eq_none_iff.mp hEnd
        | some last =>
            have hMem := List.mem_of_getLast? hEnd
            exact
              absurd (hBefore last hEnd)
                (hBody last (List.mem_append_left _ hMem))
      subst hNone
      rw [List.nil_append] at hBody ⊢
      have hFront := front_append hUnbroken hAfter
      rw [hSplit, front_append hBody hRest] at hFront
      cases run
      rw [List.length_nil, Nat.add_zero] at hStart
      rw [LineRun.mk.injEq]
      exact ⟨hStart, hFront.symm⟩
  · rintro (rfl | ⟨hRun, hUnbroken, before, after, rfl, hStart,
      hBefore, hAfter⟩)
    · exact ⟨hSome, hBody, [], rest, rfl, rfl, by simp, hRest⟩
    · refine ⟨hRun, hUnbroken, body ++ before, after, by simp,
        ?_, ?_, hAfter⟩
      · rw [hStart, List.length_append]
        omega
      · intro last hLast
        cases hEnd : before.getLast? with
        | some other =>
            rw [List.getLast?_append, hEnd,
              Option.some_or] at hLast
            exact hBefore last (hLast ▸ hEnd)
        | none =>
            -- The run would start with the break that follows.
            rw [List.getLast?_eq_none_iff] at hEnd
            subst hEnd
            cases hLines : run.lines with
            | nil => exact absurd hLines hRun
            | cons first others =>
                exact
                  absurd (hRest first (by simp [hLines]))
                    (hUnbroken first (by simp [hLines]))

/- The runs that are found are the longest ones. -/
theorem mem_listFrom_iff :
    run ∈ listFrom number lines ↔
      run.MaximalFrom number lines := by
  induction number, lines using listFrom.induct with
  | case1 number =>
      rw [listFrom]
      simp only [List.not_mem_nil, false_iff]
      rintro ⟨hSome, _, before, after, hSource, _⟩
      rw [List.nil_eq, List.append_eq_nil_iff,
        List.append_eq_nil_iff] at hSource
      exact hSome hSource.2.1
  | case2 number line lines hBreak ih =>
      rw [listFrom, if_pos hBreak, ih,
        maximalFrom_cons_iff hBreak]
  | case3 number line lines hBreak ih =>
      have hBody :
          ∀ other ∈ line :: front lines,
            ¬ Line.IsBreak other := by
        intro other hMem
        rcases List.mem_cons.mp hMem with rfl | hFront
        · exact hBreak
        · exact not_isBreak_of_mem_front hFront
      have hRuns :
          run.MaximalFrom number
              (line :: front lines ++ back lines) ↔ _ :=
        maximalFrom_append_iff (List.cons_ne_nil _ _) hBody
          (fun _ => isBreak_of_head?_back)
      rw [List.cons_append, front_append_back] at hRuns
      rw [listFrom, if_neg hBreak, List.mem_cons, ih, hRuns,
        List.length_cons, Nat.add_right_comm, Nat.add_assoc]

/- The runs are found in the order of their first lines. -/
theorem pairwise_listFrom
    (number : Nat)
    (lines : List (List Char)) :
    (listFrom number lines).Pairwise
      (·.start < ·.start) := by
  induction number, lines using listFrom.induct with
  | case1 number => simp [listFrom]
  | case2 number line lines hBreak ih =>
      rw [listFrom, if_pos hBreak]
      exact ih
  | case3 number line lines hBreak ih =>
      rw [listFrom, if_neg hBreak, List.pairwise_cons]
      refine ⟨?_, ih⟩
      intro later hLater
      rcases mem_listFrom_iff.mp hLater with
        ⟨_, _, before, after, _, hStart, _⟩
      rw [hStart]
      show number < _
      omega

end LineRun

------------------------------------------------------------
-- Reading Runs
------------------------------------------------------------

namespace Instruction

variable {number : Nat} {line : List Char}
variable {lines : List (List Char)}
variable {blocks : List Instruction}

/-
  An open block takes in the lines up to the next break, each
  of which has to state a property.
-/
theorem ofLinesFrom_some_eq_ok_iff
    {block : Instruction} :
    ofLinesFrom number (some block) lines = .ok blocks ↔
      ∃ properties more,
        List.Forall₂ Property.StatedBy properties
          (LineRun.front lines) ∧
        ofLinesFrom (number + (LineRun.front lines).length) none
          (LineRun.back lines) = .ok more ∧
        blocks =
          { block with
            properties := block.properties ++ properties } ::
            more := by
  induction lines generalizing number block with
  | nil =>
      simp [ofLinesFrom, LineRun.front, LineRun.back, eq_comm]
  | cons line lines ih =>
      by_cases hBreak : Line.IsBreak line
      · have hGap := LineKind.ofLine_eq_gap_iff.mpr hBreak
        simp [ofLinesFrom, LineRun.front, LineRun.back, hBreak, hGap,
          map_eq_ok_iff, eq_comm (a := blocks)]
      · have hFront :
            LineRun.front (line :: lines) =
              line :: LineRun.front lines := by
          simp [LineRun.front, hBreak]
        have hBack :
            LineRun.back (line :: lines) = LineRun.back lines := by
          simp [LineRun.back, hBreak]
        rw [hFront, hBack, List.length_cons]
        constructor
        · intro hBlocks
          rcases ofLinesFrom_cons_eq_ok hBlocks with
            ⟨hGap, _⟩ | ⟨content, before, p, hKind, hSame, hRead, hMore⟩ |
              ⟨_, _, _, hNone, _⟩
          · exact
              absurd (LineKind.ofLine_eq_gap_iff.mp hGap) hBreak
          · cases hSame
            rcases LineKind.ofLine_eq_property_iff.mp hKind with
              ⟨hIndented, rfl⟩
            rcases ih.mp hMore with
              ⟨properties, more, hAll, hRest, rfl⟩
            refine ⟨p :: properties, more, ?_, ?_, ?_⟩
            · exact
                .cons
                  ⟨hIndented,
                    Property.ofContent_eq_ok_iff.mp hRead⟩
                  hAll
            · rw [← hRest]
              congr 1
              omega
            · simp [push]
          · cases hNone
        · rintro ⟨properties, more, hAll, hRest, rfl⟩
          rcases List.forall₂_cons_right_iff.mp hAll with
            ⟨p, others, ⟨hIndented, hCuts⟩, hOthers, rfl⟩
          have hKind :=
            LineKind.ofLine_eq_property_iff.mpr
              ⟨hIndented, rfl⟩
          have hRead := Property.ofContent_eq_ok_iff.mpr hCuts
          unfold ofLinesFrom
          simp only [hKind, hRead]
          apply ih.mpr
          refine ⟨others, more, hOthers, ?_, ?_⟩
          · rw [← hRest]
            congr 1
            omega
          · simp [push]

/- With no block open, the blocks are those of the runs. -/
theorem ofLinesFrom_none_eq_ok_iff :
    ofLinesFrom number none lines = .ok blocks ↔
      List.Forall₂ LineRun.Reads
        (LineRun.listFrom number lines) blocks := by
  induction number, lines using LineRun.listFrom.induct
    generalizing blocks with
  | case1 number =>
      simp [ofLinesFrom, LineRun.listFrom, eq_comm]
  | case2 number line lines hBreak ih =>
      have hGap := LineKind.ofLine_eq_gap_iff.mpr hBreak
      rw [LineRun.listFrom, if_pos hBreak, ← ih]
      simp [ofLinesFrom, hGap, map_eq_ok_iff]
  | case3 number line lines hBreak ih =>
      rw [LineRun.listFrom, if_neg hBreak,
        List.forall₂_cons_left_iff]
      constructor
      · intro hBlocks
        rcases ofLinesFrom_cons_eq_ok hBlocks with
          ⟨hGap, _⟩ | ⟨_, _, _, _, hSome, _⟩ |
            ⟨content, verb, hKind, _, hVerb, hRest⟩
        · exact
            absurd (LineKind.ofLine_eq_gap_iff.mp hGap) hBreak
        · cases hSome
        · rcases ofLinesFrom_some_eq_ok_iff.mp hRest with
            ⟨properties, more, hAll, hMore, rfl⟩
          rw [LineKind.eq_of_heading hKind] at hVerb
          refine ⟨_, more, ⟨rfl, line, _, rfl, ?_, ?_⟩,
            ih.mp hMore, rfl⟩
          · exact Verb.ofContent_eq_ok_iff.mp hVerb
          · exact hAll
      · rintro ⟨⟨start, verb, properties⟩, more,
          ⟨hStart, first, rest, hLines, hVerb, hAll⟩,
          hMore, rfl⟩
        cases hLines
        cases hStart
        have hKind :=
          LineKind.ofLine_eq_heading_iff.mpr
            ⟨hVerb.isHeading, rfl⟩
        have hRead := Verb.ofContent_eq_ok_iff.mpr hVerb
        unfold ofLinesFrom
        simp only [hKind, hRead]
        exact
          ofLinesFrom_some_eq_ok_iff.mpr
            ⟨properties, more, hAll, ih.mpr hMore, rfl⟩

end Instruction

------------------------------------------------------------
-- Refused Lines
------------------------------------------------------------

/- Whether a run goes on after some lines. -/
def LineRun.OpenAfter (lines : List (List Char)) : Prop :=
  ∃ line, lines.getLast? = some line ∧ ¬ Line.IsBreak line

/-
  Whether a reason is one why a line cannot stand where it
  stands, inside a run or not.
-/
def ParseErrorKind.Refuses
    (inRun : Prop)
    (line : List Char) :
    ParseErrorKind → Prop
| .orphanProperty => Line.IsIndented line ∧ ¬ inRun
| .expectedIndentation => Line.IsHeading line ∧ inRun
| .invalidVerb text =>
    Line.IsHeading line ∧ ¬ inRun ∧ text.toList = line ∧
      ∀ verb : Verb, ¬ verb.StatedBy line
| .invalidProperty word =>
    Line.IsIndented line ∧ inRun ∧
      (∃ rest,
        Text.CutsAtSpace (Text.trimStart line)
          word.toList rest) ∧
      ∀ kind : PropertyKind, Keyword.text kind ≠ word

namespace Instruction

variable {number : Nat} {line : List Char}
variable {opened : Option Instruction}
variable {lines : List (List Char)}
variable {e : ParseError}

/-
  Reading one more line fails for a reason of its own, or it
  leaves a block open exactly if the line is no break, and
  the rest is read from there.
-/
theorem refuses_or_exists_next
    (number : Nat)
    (opened : Option Instruction)
    (line : List Char) :
    (∃ kind : ParseErrorKind,
      kind.Refuses (opened.isSome = true) line ∧
        ∀ lines,
          ofLinesFrom number opened (line :: lines) =
            .error ⟨number, kind⟩) ∨
    ∃ (next : Option Instruction) (closed : List Instruction),
      (next.isSome = true ↔ ¬ Line.IsBreak line) ∧
        ∀ lines,
          ofLinesFrom number opened (line :: lines) =
            (ofLinesFrom (number + 1) next lines).map
              (closed ++ ·) := by
  cases hKind : LineKind.ofLine line with
  | gap =>
      have hBreak := LineKind.ofLine_eq_gap_iff.mp hKind
      right
      refine ⟨none, opened.toList, by simp [hBreak], ?_⟩
      intro lines
      simp only [ofLinesFrom, hKind]
  | property content =>
      rcases LineKind.ofLine_eq_property_iff.mp hKind with
        ⟨hIndented, rfl⟩
      cases opened with
      | none =>
          left
          refine ⟨.orphanProperty, ⟨hIndented, by simp⟩, ?_⟩
          intro lines
          simp only [ofLinesFrom, hKind]
      | some block =>
          cases hRead :
              Property.ofContent (Text.trimStart line) with
          | error kind =>
              left
              refine ⟨kind, ?_, ?_⟩
              · rcases Property.ofContent_eq_error_iff.mp hRead
                  with ⟨word, rest, hCuts, hUnknown, rfl⟩
                exact
                  ⟨hIndented, rfl, ⟨rest, hCuts⟩, hUnknown⟩
              · intro lines
                simp only [ofLinesFrom, hKind, hRead]
          | ok p =>
              right
              refine
                ⟨some (block.push p), [],
                  by simp [hIndented.not_isBreak], ?_⟩
              intro lines
              simp only [ofLinesFrom, hKind, hRead,
                List.nil_append]
              exact (congrFun Except.map_id _).symm
  | heading content =>
      rcases LineKind.ofLine_eq_heading_iff.mp hKind with
        ⟨hHeading, rfl⟩
      cases opened with
      | some block =>
          left
          refine
            ⟨.expectedIndentation, ⟨hHeading, rfl⟩, ?_⟩
          intro lines
          simp only [ofLinesFrom, hKind]
      | none =>
          cases hRead : Verb.ofContent content with
          | error kind =>
              left
              refine ⟨kind, ?_, ?_⟩
              · rcases Verb.ofContent_eq_error_iff.mp hRead with
                  ⟨hUnknown, rfl⟩
                exact
                  ⟨hHeading, by simp, String.toList_ofList,
                    hUnknown⟩
              · intro lines
                simp only [ofLinesFrom, hKind, hRead]
          | ok verb =>
              right
              refine
                ⟨some ⟨number, verb, []⟩, [],
                  by simp [hHeading.1], ?_⟩
              intro lines
              simp only [ofLinesFrom, hKind, hRead,
                List.nil_append]
              exact (congrFun Except.map_id _).symm

/-
  A source that is refused has a first line that is: what is
  before it is read, and whatever is after it does not help.
-/
theorem exists_refused
    (hLines : ofLinesFrom number opened lines = .error e) :
    ∃ before line after,
      lines = before ++ line :: after ∧
        e.line = number + before.length ∧
        (∃ blocks,
          ofLinesFrom number opened before = .ok blocks) ∧
        (∀ others,
          ofLinesFrom number opened
            (before ++ line :: others) = .error e) ∧
        e.kind.Refuses
          (LineRun.OpenAfter before ∨
            before = [] ∧ opened.isSome = true) line := by
  induction lines generalizing number opened with
  | nil => cases hLines
  | cons first lines ih =>
      rcases refuses_or_exists_next number opened first with
        ⟨kind, hRefuses, hStop⟩ | ⟨next, closed, hNext, hStep⟩
      · rw [hStop] at hLines
        cases hLines
        refine ⟨[], first, lines, rfl, rfl, ⟨_, rfl⟩, hStop, ?_⟩
        simpa [LineRun.OpenAfter] using hRefuses
      · rw [hStep, map_eq_error_iff] at hLines
        rcases ih hLines with
          ⟨before, line, after, rfl, hNumber,
            ⟨blocks, hBefore⟩, hStop, hRefuses⟩
        refine
          ⟨first :: before, line, after, rfl, ?_,
            ⟨closed ++ blocks, ?_⟩, ?_, ?_⟩
        · rw [hNumber, List.length_cons]
          omega
        · rw [hStep, hBefore]
          rfl
        · intro others
          rw [List.cons_append, hStep, map_eq_error_iff]
          exact hStop others
        · have hOpen :
              LineRun.OpenAfter (first :: before) ↔
                LineRun.OpenAfter before ∨
                  before = [] ∧ next.isSome = true := by
            rw [hNext]
            unfold LineRun.OpenAfter
            rw [List.getLast?_cons]
            cases hEnd : before.getLast? with
            | none =>
                simp [List.getLast?_eq_none_iff.mp hEnd]
            | some last =>
                have hSome : before ≠ [] := by
                  rintro rfl
                  cases hEnd
                simp [hSome]
          simpa [hOpen] using hRefuses

------------------------------------------------------------
-- The Grammar
------------------------------------------------------------

/- Whether each of the longest runs of a source is a block. -/
def InGrammar (source : List (List Char)) : Prop :=
  ∀ run : LineRun,
    run.MaximalIn source → ∃ block, run.Reads block

/- Whether some lines can go on to a source of the grammar. -/
def CanGoOn (lines : List (List Char)) : Prop :=
  ∃ more, InGrammar (lines ++ more)

/- A source is read exactly if it is one of the grammar. -/
theorem exists_ofLinesFrom_iff :
    (∃ blocks, ofLinesFrom 1 none lines = .ok blocks) ↔
      InGrammar lines := by
  simp only [ofLinesFrom_none_eq_ok_iff, exists_forall₂_iff]
  exact forall_congr' fun _ => imp_congr LineRun.mem_listFrom_iff .rfl

/-
  Whether a source is refused where it should be: at the first
  line up to which no source of the grammar has these lines,
  and for the reason that this line has.
-/
structure RefusedAt
    (source : List (List Char))
    (e : ParseError)
    (before : List (List Char))
    (line : List Char) : Prop where
  stands : before ++ [line] <+: source
  number : e.line = before.length + 1
  possible : ∀ part, part <+: before → CanGoOn part
  impossible : ¬ CanGoOn (before ++ [line])
  reason : e.kind.Refuses (LineRun.OpenAfter before) line

/-
  What has to become of a list of lines: it is read exactly if
  its runs are blocks, it is then read as these blocks, and
  otherwise the first line that cannot stand is reported.
-/
structure Grammar
    (source : List (List Char))
    (result : Except ParseError (List Instruction)) :
    Prop where
  accepts :
    (∃ blocks, result = .ok blocks) ↔ InGrammar source
  blocks :
    ∀ blocks,
      result = .ok blocks →
        ∃ runs : List LineRun,
          (∀ run, run ∈ runs ↔ run.MaximalIn source) ∧
            runs.Pairwise (·.start < ·.start) ∧
            List.Forall₂ LineRun.Reads runs blocks
  refuses :
    ∀ e,
      result = .error e →
        ∃ before line, RefusedAt source e before line

/- That is what becomes of it. -/
theorem grammar_ofLines (lines : List String) :
    Grammar (lines.map String.toList) (ofLines lines) where
  accepts := exists_ofLinesFrom_iff
  blocks := by
    intro blocks hBlocks
    exact
      ⟨_, fun _ => LineRun.mem_listFrom_iff,
        LineRun.pairwise_listFrom _ _,
        ofLinesFrom_none_eq_ok_iff.mp hBlocks⟩
  refuses := by
    intro e hLines
    rcases exists_refused hLines with
      ⟨before, line, after, hSource, hNumber, hBefore, hStop,
        hReason⟩
    refine ⟨before, line, ?_, ?_, ?_, ?_, ?_⟩
    · exact ⟨after, by simp [hSource]⟩
    · rw [hNumber]
      omega
    · rintro part ⟨others, rfl⟩
      exact ⟨others, exists_ofLinesFrom_iff.mp hBefore⟩
    · rintro ⟨more, hMore⟩
      rcases exists_ofLinesFrom_iff.mpr hMore with
        ⟨blocks, hBlocks⟩
      rw [List.append_assoc, List.singleton_append,
        hStop] at hBlocks
      cases hBlocks
    · simpa using hReason

end Instruction

end LootFilter
