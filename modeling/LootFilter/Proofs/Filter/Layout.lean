import LootFilter.Filter
import LootFilter.Proofs.DataFile
import LootFilter.Proofs.Evaluation.Arguments
import LootFilter.Proofs.Filter.Rendering

/-
  What the layout of a source does not change.

  A line feed may have a carriage return in front of it, a
  property may be indented by other blanks, and a break may
  stand in place of another.  Blocks are read from the kinds
  of lines, and these stay what they are.  The induction is on
  the two texts line by line; the block that is open and the
  number of the line are the same in both.

  Main declarations:
    * `Line.Relaid`, `Text.Relaid`
    * `Line.Relaid.ofLine_eq`
    * `Instruction.ofLinesFrom_of_relaid`
    * `Filter.ofFile_eq`
    * `Filter.ofSource_of_relaid`
-/

namespace LootFilter

------------------------------------------------------------
-- Lines
------------------------------------------------------------

/-
  Whether a line may stand in place of another: it is the
  same, it has the same content behind other blanks, or both
  are breaks.
-/
inductive Line.Relaid : List Char → List Char → Prop where
| same
    (line : List Char) :
    Relaid line line
| indented
    {white blanks : List Char}
    (hWhite : Text.IsWhite white)
    (hIndented : IsIndented white)
    (hBlanks : Text.IsBlank blanks)
    (hSome : blanks ≠ [])
    (content : List Char) :
    Relaid (white ++ content) (blanks ++ content)
| gap
    {line other : List Char}
    (hBreak : IsBreak line)
    (hOther : IsBreak other)
    (hFeed : '\n' ∉ other)
    (hReturn : other.getLast? ≠ some '\r') :
    Relaid line other

namespace Line

variable {line other blanks : List Char}

/- A line that starts with some blanks is indented. -/
theorem isIndented_append
    (hBlanks : Text.IsBlank blanks)
    (hSome : blanks ≠ [])
    (content : List Char) :
    IsIndented (blanks ++ content) := by
  cases blanks with
  | nil => exact absurd rfl hSome
  | cons c blanks =>
      have hFirst := hBlanks c List.mem_cons_self
      simpa [Text.isBlank, IsIndented] using hFirst

/- What is indented is indented whatever comes after it. -/
theorem IsIndented.append
    (hIndented : IsIndented line)
    (content : List Char) :
    IsIndented (line ++ content) := by
  unfold IsIndented at hIndented ⊢
  cases line with
  | nil => simp at hIndented
  | cons c cs => exact hIndented

/- The line in place of another is of the same kind. -/
theorem Relaid.ofLine_eq
    (hRelaid : Relaid line other) :
    LineKind.ofLine other = LineKind.ofLine line := by
  cases hRelaid with
  | same => rfl
  | @indented white blanks hWhite hIndented hBlanks hSome content =>
      have hBlanksWhite : Text.IsWhite blanks :=
        fun c hMem => Text.isWhite_of_isBlank (hBlanks c hMem)
      have hOther :=
        LineKind.ofLine_eq_property_iff.mpr
          ⟨isIndented_append hBlanks hSome content, rfl⟩
      have hLine :=
        LineKind.ofLine_eq_property_iff.mpr
          ⟨hIndented.append content, rfl⟩
      rw [hOther, hLine, Text.trimStart, Text.trimStart,
        List.dropWhile_append_of_pos hBlanksWhite,
        List.dropWhile_append_of_pos hWhite]
  | gap hBreak hOther =>
      rw [LineKind.ofLine_eq_gap_iff.mpr hBreak,
        LineKind.ofLine_eq_gap_iff.mpr hOther]

/- There is no line feed in it, either. -/
theorem Relaid.newline_not_mem
    (hRelaid : Relaid line other)
    (hLine : '\n' ∉ line) :
    '\n' ∉ other := by
  cases hRelaid with
  | same => exact hLine
  | indented hWhite hIndented hBlanks hSome content =>
      rw [List.mem_append, not_or] at hLine ⊢
      refine ⟨?_, hLine.2⟩
      intro hMem
      exact absurd (hBlanks '\n' hMem) (by decide)
  | gap hBreak hOther hFeed => exact hFeed

/- Nor does it end in a carriage return. -/
theorem Relaid.getLast?_ne_return
    (hRelaid : Relaid line other)
    (hLine : line.getLast? ≠ some '\r') :
    other.getLast? ≠ some '\r' := by
  cases hRelaid with
  | same => exact hLine
  | @indented white blanks hWhite hIndented hBlanks hSome content =>
      cases content with
      | nil =>
          rw [List.append_nil]
          intro hLast
          have hMem := List.mem_of_getLast? hLast
          exact absurd (hBlanks '\r' hMem) (by decide)
      | cons c content =>
          rw [List.getLast?_append_of_ne_nil _ (by simp)] at hLine ⊢
          exact hLine
  | gap hBreak hOther hFeed hReturn => exact hReturn

/- And no mark is put in front of it. -/
theorem Relaid.head?_cases
    (hRelaid : Relaid line other) :
    other.head? = line.head? ∨
      ∀ c ∈ other.head?, c = '#' ∨ Text.isBlank c = true := by
  cases hRelaid with
  | same => exact Or.inl rfl
  | @indented white blanks hWhite hIndented hBlanks hSome content =>
      right
      intro c hHead
      cases blanks with
      | nil => exact absurd rfl hSome
      | cons b blanks =>
          cases hHead
          exact Or.inr (hBlanks c List.mem_cons_self)
  | gap hBreak hOther =>
      right
      intro c hHead
      rcases hOther with rfl | hHash
      · cases hHead
      · rw [Option.mem_def, hHash] at hHead
        exact Or.inl (Option.some.inj hHead).symm

end Line

------------------------------------------------------------
-- Texts
------------------------------------------------------------

/-
  Whether a text is another one laid out anew: each line of
  the other has a line in its place, with a line feed or a
  carriage return and a line feed behind it.
-/
inductive Text.Relaid : List Char → List Char → Prop where
| last
    {line other : List Char}
    (hLine : '\n' ∉ line)
    (hRelaid : Line.Relaid line other) :
    Relaid line other
| more
    {line other ending rest others : List Char}
    (hLine : '\n' ∉ line)
    (hRelaid : Line.Relaid line other)
    (hEnding : ending = ['\n'] ∨ ending = ['\r', '\n'])
    (hRest : Relaid rest others) :
    Relaid (line ++ '\n' :: rest) (other ++ (ending ++ others))

namespace Text

variable {line ending text other : List Char}

/- Both ends of a line are taken off it. -/
theorem lines_append_ending
    (hLine : '\n' ∉ line)
    (hReturn : line.getLast? ≠ some '\r')
    (hEnding : ending = ['\n'] ∨ ending = ['\r', '\n'])
    (rest : List Char) :
    lines (line ++ (ending ++ rest)) = line :: lines rest := by
  rcases hEnding with rfl | rfl
  · have hLines := lines_append_newline hLine rest
    rw [dropReturn_eq_iff.mpr hReturn] at hLines
    exact hLines
  · have hFree : '\n' ∉ line ++ ['\r'] := by simp [hLine]
    have hLines := lines_append_newline hFree rest
    have hDrop : dropReturn (line ++ ['\r']) = line := by
      simp [dropReturn]
    rw [hDrop, List.append_assoc] at hLines
    exact hLines

/- A text that starts with no mark starts with none anew. -/
theorem Relaid.head?_ne
    (hRelaid : Relaid text other)
    (hText : text.head? ≠ some DataFile.byteOrderMark) :
    other.head? ≠ some DataFile.byteOrderMark := by
  have hHead :
      ∀ {line other : List Char},
        Line.Relaid line other →
          line.head? ≠ some DataFile.byteOrderMark →
            other.head? ≠ some DataFile.byteOrderMark := by
    intro line other hRelaid hLine hMark
    rcases hRelaid.head?_cases with hSame | hOther
    · exact hLine (hSame ▸ hMark)
    · exact absurd (hOther _ hMark) (by decide)
  cases hRelaid with
  | last hLine hRelaid => exact hHead hRelaid hText
  | @more line other ending rest others hLine hRelaid hEnding hRest =>
      have hFirst : line.head? ≠ some DataFile.byteOrderMark := by
        intro hMark
        apply hText
        rw [List.head?_append, hMark]
        rfl
      have hOther := hHead hRelaid hFirst
      rw [List.head?_append]
      cases hSome : other.head? with
      | none =>
          rcases hEnding with rfl | rfl <;>
            simp [DataFile.byteOrderMark]
      | some c => rwa [hSome] at hOther

end Text

------------------------------------------------------------
-- Blocks
------------------------------------------------------------

namespace Instruction

variable {line other text : List Char}
variable {lines others : List (List Char)}

/- Blocks are read from the kinds of lines. -/
theorem ofLinesFrom_cons_congr
    (hKind : LineKind.ofLine other = LineKind.ofLine line)
    (hRest :
      ∀ number opened,
        ofLinesFrom number opened others =
          ofLinesFrom number opened lines)
    (number : Nat)
    (opened : Option Instruction) :
    ofLinesFrom number opened (other :: others) =
      ofLinesFrom number opened (line :: lines) := by
  simp only [ofLinesFrom, hKind, hRest]

/-
  What is behind the last line feed is read as one line, also
  if it is empty and no line at all.
-/
theorem ofLinesFrom_lines_last
    (hLine : '\n' ∉ line)
    (number : Nat)
    (opened : Option Instruction) :
    ofLinesFrom number opened (Text.lines line) =
      ofLinesFrom number opened [line] := by
  cases line with
  | nil => simp [Text.lines, ofLinesFrom, LineKind.ofLine, Except.map]
  | cons c cs =>
      rw [Text.lines_eq_singleton (List.cons_ne_nil c cs) hLine]

/- A text that is laid out anew is read as the same blocks. -/
theorem ofLinesFrom_of_relaid
    (hFree : ¬ ['\r', '\n'] <:+: text)
    (hRelaid : Text.Relaid text other)
    (number : Nat)
    (opened : Option Instruction) :
    ofLinesFrom number opened (Text.lines other) =
      ofLinesFrom number opened (Text.lines text) := by
  induction hRelaid generalizing number opened with
  | last hLine hRelaid =>
      rw [ofLinesFrom_lines_last (hRelaid.newline_not_mem hLine),
        ofLinesFrom_lines_last hLine]
      exact
        ofLinesFrom_cons_congr hRelaid.ofLine_eq
          (fun _ _ => rfl) number opened
  | @more line other ending rest others hLine hRelaid hEnding hRest ih =>
      have hReturn : line.getLast? ≠ some '\r' := by
        intro hLast
        rcases List.getLast?_eq_some_iff.mp hLast with
          ⟨front, rfl⟩
        exact hFree ⟨front, rest, by simp⟩
      have hRestFree : ¬ ['\r', '\n'] <:+: rest := by
        rintro ⟨front, back, rfl⟩
        exact hFree ⟨line ++ '\n' :: front, back, by simp⟩
      have hLines :=
        Text.lines_append_ending hLine hReturn (Or.inl rfl) rest
      have hOthers :=
        Text.lines_append_ending
          (hRelaid.newline_not_mem hLine)
          (hRelaid.getLast?_ne_return hReturn) hEnding others
      rw [List.singleton_append] at hLines
      rw [hLines, hOthers]
      exact
        ofLinesFrom_cons_congr hRelaid.ofLine_eq (ih hRestFree)
          number opened

end Instruction

------------------------------------------------------------
-- Filters
------------------------------------------------------------

/- A text without a mark at its front is kept whole. -/
theorem DataFile.dropMark_eq_self
    {s : String}
    (hMark : s.toList.head? ≠ some byteOrderMark) :
    dropMark s = s := by
  unfold dropMark
  split
  · rfl
  · rename_i c cs hText
    rw [hText, List.head?_cons] at hMark
    exact if_neg (fun hSame => hMark (congrArg some hSame))

namespace Filter

variable {c : Catalog} {source other : String}

/- A file holds the filter of its text without a mark. -/
theorem ofFile_eq
    {d : Disk}
    {p : Path}
    {text : String}
    (hRead : d.read p = .ok text.toUTF8) :
    ofFile c d p =
      (ofSource c (DataFile.dropMark text)).mapError
        .source := by
  have hText :
      DataFile.readText d p = .ok (DataFile.dropMark text) :=
    DataFile.readText_eq_ok_iff.mpr
      ⟨_, text, hRead, DataFile.fromUTF8?_toUTF8 text, rfl⟩
  unfold ofFile
  rw [hText]
  dsimp only
  cases ofSource c (DataFile.dropMark text) <;> rfl

/-
  A source that is laid out anew is the same filter, or fails
  at the same line for the same reason.  So does a file with
  either text, with or without a byte order mark in front.
-/
theorem ofSource_of_relaid
    (c : Catalog)
    (hMark : source.toList.head? ≠ some DataFile.byteOrderMark)
    (hFree : ¬ ['\r', '\n'] <:+: source.toList)
    (hRelaid : Text.Relaid source.toList other.toList) :
    ofSource c other = ofSource c source ∧
      ∀ (d : Disk) (p : Path),
        ∀ mark ∈ ["", String.ofList [DataFile.byteOrderMark]],
          ∀ text ∈ [source, other],
            d.read p = .ok (mark ++ text).toUTF8 →
              ofFile c d p =
                (ofSource c source).mapError .source := by
  have hBlocks :
      Instruction.ofSource other = Instruction.ofSource source :=
    Instruction.ofLinesFrom_of_relaid hFree hRelaid 1 none
  have hSame : ofSource c other = ofSource c source := by
    unfold ofSource
    rw [hBlocks]
  refine ⟨hSame, ?_⟩
  intro d p mark hMarks text hTexts hRead
  have hText :
      text.toList.head? ≠ some DataFile.byteOrderMark ∧
        ofSource c text = ofSource c source := by
    simp only [List.mem_cons, List.not_mem_nil, or_false]
      at hTexts
    rcases hTexts with rfl | rfl
    · exact ⟨hMark, rfl⟩
    · exact ⟨hRelaid.head?_ne hMark, hSame⟩
  have hDrop : DataFile.dropMark (mark ++ text) = text := by
    simp only [List.mem_cons, List.not_mem_nil, or_false]
      at hMarks
    rcases hMarks with rfl | rfl
    · rw [String.empty_append]
      exact DataFile.dropMark_eq_self hText.1
    · exact DataFile.dropMark_append text
  rw [ofFile_eq hRead, hDrop, hText.2]

/- A source, with a comment behind its last line feed. -/
def noteSource : String :=
  "Hide\n  BaseType Cap\n# caps"

/- The same with other blanks, line ends and no comment. -/
def bareSource : String :=
  "Hide\r\n\tBaseType Cap\n"

/- It stands in a file behind a byte order mark. -/
def bareDisk : Disk :=
  ⟨[(["caps"], .file ("\uFEFF" ++ bareSource).toUTF8)], []⟩

/- One is the other laid out anew. -/
theorem relaid_bareSource :
    Text.Relaid noteSource.toList bareSource.toList := by
  have hNote : Text.Relaid "# caps".toList [] :=
    .last (by decide)
      (.gap (Or.inr rfl) (Or.inl rfl) (by decide) (by decide))
  have hWhite : Text.IsWhite "  ".toList := by
    intro c hMem
    have hSpace : c = ' ' := by simpa using hMem
    rw [hSpace]
    decide
  have hBlank : Text.IsBlank "\t".toList := by
    intro c hMem
    have hTab : c = '\t' := by simpa using hMem
    rw [hTab]
    decide
  have hProperty :
      Line.Relaid ("  ".toList ++ "BaseType Cap".toList)
        ("\t".toList ++ "BaseType Cap".toList) :=
    .indented hWhite (by simp [Line.IsIndented]) hBlank
      (by decide) _
  have hAll :=
    Text.Relaid.more (by decide) (.same "Hide".toList)
      (Or.inr rfl)
      (Text.Relaid.more (by decide) hProperty (Or.inl rfl)
        hNote)
  have hSource :
      noteSource.toList =
        "Hide".toList ++
          '\n' :: ("  ".toList ++ "BaseType Cap".toList ++
            '\n' :: "# caps".toList) := by
    decide
  have hOther :
      bareSource.toList =
        "Hide".toList ++
          (['\r', '\n'] ++
            ("\t".toList ++ "BaseType Cap".toList ++
              (['\n'] ++ []))) := by
    decide
  rw [hSource, hOther]
  exact hAll

/- The file holds the filter of the first source. -/
theorem ofFile_bareDisk :
    noteSource.toList.head? ≠ some DataFile.byteOrderMark ∧
      ¬ ['\r', '\n'] <:+: noteSource.toList ∧
      Text.Relaid noteSource.toList bareSource.toList ∧
      ofFile (Catalog.empty.addName ⟨"cap", "Cap"⟩) bareDisk
          ⟨["", "caps"]⟩ =
        .ok
          ⟨[ ⟨1, .hideItem, some (BaseSet.ofList ["cap"]),
            none, []⟩ ]⟩ := by
  have hMark :
      noteSource.toList.head? ≠
        some DataFile.byteOrderMark := by
    decide
  have hFree : ¬ ['\r', '\n'] <:+: noteSource.toList :=
    fun hInfix =>
      absurd (hInfix.subset List.mem_cons_self) (by decide)
  have hFile :=
    (ofSource_of_relaid
      (Catalog.empty.addName ⟨"cap", "Cap"⟩)
      hMark hFree relaid_bareSource).2
      bareDisk ⟨["", "caps"]⟩ "\uFEFF" (by decide) bareSource
      (by decide) (by decide)
  refine ⟨hMark, hFree, relaid_bareSource, hFile.trans ?_⟩
  decide +kernel

end Filter

end LootFilter
