import LootFilter.Proofs.Filter.Grammar

/-
  What becomes of blocks that are rendered and read again.

  A line's end takes one carriage return with it.  So an
  argument that ends in one loses it if a line follows, and
  nothing else is lost.  The induction is on the blocks, with
  the text of the later ones as the rest of the text.

  Main declarations:
    * `Text.lines_append_newline`
    * `Instruction.render_toList`
    * `Instruction.reread`
    * `Instruction.ofLinesFrom_renderAll`
    * `Instruction.content_reread`
    * `Instruction.rendering_changes_content`
-/

namespace LootFilter

------------------------------------------------------------
-- Ends of Lines
------------------------------------------------------------

namespace Text

/- A line without the carriage return that it may end in. -/
def dropReturn (line : List Char) : List Char :=
  if line.getLast? = some '\r' then line.dropLast else line

/- The carriage return of a longer line is that of its tail. -/
theorem dropReturn_cons
    {c : Char}
    {line : List Char}
    (hSome : line ≠ []) :
    dropReturn (c :: line) = c :: dropReturn line := by
  cases line with
  | nil => exact absurd rfl hSome
  | cons d ds =>
      unfold dropReturn
      rw [List.getLast?_cons_cons, List.dropLast_cons_cons]
      split <;> rfl

/- A text in front of a line does not matter to its end. -/
theorem dropReturn_append
    (text : List Char)
    {line : List Char}
    (hSome : line ≠ []) :
    dropReturn (text ++ line) = text ++ dropReturn line := by
  induction text with
  | nil => rfl
  | cons c cs ih =>
      rw [List.cons_append, dropReturn_cons (by simp [hSome]),
        ih, List.cons_append]

variable {line text : List Char}

/- A line is kept whole exactly if it ends in no return. -/
theorem dropReturn_eq_iff :
    dropReturn line = line ↔ line.getLast? ≠ some '\r' := by
  unfold dropReturn
  split
  · rename_i hLast
    have hMem := List.mem_of_getLast? hLast
    have hLength := List.length_pos_of_mem hMem
    simp only [hLast, ne_eq, not_true_eq_false, iff_false]
    intro hSame
    have hShort := congrArg List.length hSame
    rw [List.length_dropLast] at hShort
    omega
  · rename_i hLast
    simp [hLast]

/- A line feed ends the first line, and the rest follows. -/
theorem lines_append_newline
    (hLine : '\n' ∉ line)
    (rest : List Char) :
    lines (line ++ '\n' :: rest) =
      dropReturn line :: lines rest := by
  induction line with
  | nil => simp [lines, dropReturn]
  | cons c cs ih =>
      rw [List.mem_cons, not_or] at hLine
      cases cs with
      | nil =>
          by_cases hReturn : c = '\r'
          · subst hReturn
            simp [lines, dropReturn]
          · simp [lines, dropReturn, hReturn, Ne.symm hLine.1]
      | cons d ds =>
          rw [dropReturn_cons (List.cons_ne_nil d ds)]
          have hRest := ih hLine.2
          have hFeed : d ≠ '\n' := by
            rintro rfl
            exact hLine.2 (by simp)
          simp only [List.cons_append] at hRest ⊢
          rw [lines, hRest]
          · exact fun h => hLine.1 h.symm
          · rintro _ _ hSame
            cases hSame
            exact hFeed rfl

/- A text without a line feed is one line, unless empty. -/
theorem lines_eq_singleton
    (hSome : line ≠ [])
    (hLine : '\n' ∉ line) :
    lines line = [line] := by
  induction line with
  | nil => exact absurd rfl hSome
  | cons c cs ih =>
      rw [List.mem_cons, not_or] at hLine
      cases cs with
      | nil => simp [lines, Ne.symm hLine.1]
      | cons d ds =>
          have hRest := ih (List.cons_ne_nil d ds) hLine.2
          have hFeed : d ≠ '\n' := by
            rintro rfl
            exact hLine.2 (by simp)
          rw [lines, hRest]
          · exact fun h => hLine.1 h.symm
          · rintro _ _ hSame
            cases hSame
            exact hFeed rfl

/- No line of a text has a line feed in it. -/
theorem newline_not_mem_of_mem_lines
    (hMem : line ∈ lines text) :
    '\n' ∉ line := by
  induction text using lines.induct generalizing line with
  | case1 => simp [lines] at hMem
  | case2 cs ih =>
      rw [lines, List.mem_cons] at hMem
      rcases hMem with rfl | hRest
      · simp
      · exact ih hRest
  | case3 cs ih =>
      rw [lines, List.mem_cons] at hMem
      rcases hMem with rfl | hRest
      · simp
      · exact ih hRest
  | case4 c cs hFeed hReturn hNone ih =>
      rw [lines, hNone] at hMem
      · rw [List.mem_singleton] at hMem
        subst hMem
        simpa using fun h => hFeed h.symm
      · exact hFeed
      · exact hReturn
  | case5 c cs hFeed hReturn first rest hSplit ih =>
      rw [lines, hSplit] at hMem
      · rw [hSplit] at ih
        rcases List.mem_cons.mp hMem with rfl | hRest
        · rw [List.mem_cons, not_or]
          exact ⟨fun h => hFeed h.symm, ih (by simp)⟩
        · exact ih (List.mem_cons_of_mem _ hRest)
      · exact hFeed
      · exact hReturn

/- Whether a text is a word: not empty, and nowhere white. -/
def IsWord (text : List Char) : Prop :=
  text ≠ [] ∧ ∀ c ∈ text, isWhite c = false

/- A white character is not in a word. -/
theorem IsWord.not_mem
    (hWord : IsWord text)
    {c : Char}
    (hWhite : isWhite c = true) :
    c ∉ text := by
  intro hMem
  rw [hWord.2 c hMem] at hWhite
  cases hWhite

/- A word does not end in a carriage return. -/
theorem IsWord.dropReturn_eq
    (hWord : IsWord text) :
    dropReturn text = text := by
  rw [dropReturn_eq_iff]
  intro hLast
  exact
    hWord.not_mem (c := '\r') (by decide)
      (List.mem_of_getLast? hLast)

end Text

/- The keyword of a property is a word. -/
theorem PropertyKind.isWord_text (kind : PropertyKind) :
    Text.IsWord (Keyword.text kind).toList := by
  unfold Text.IsWord
  cases kind <;> simp [Keyword.text, Text.isWhite]

/- And so is the keyword of a verb. -/
theorem Verb.isWord_text (verb : Verb) :
    Text.IsWord (Keyword.text verb).toList := by
  unfold Text.IsWord
  cases verb <;> simp [Keyword.text, Text.isWhite]

------------------------------------------------------------
-- The Line of a Property
------------------------------------------------------------

/- The line that a property is rendered on. -/
def Property.line (p : Property) : List Char :=
  "    ".toList ++ p.render.toList

/- A property without the carriage return at its end. -/
def Property.withoutReturn (p : Property) : Property :=
  { p with raw := String.ofList (Text.dropReturn p.raw.toList) }

/- An indented keyword with an argument states a property. -/
theorem Property.statedBy_indent
    {p : Property}
    {rest : List Char}
    (hRest :
      rest = ' ' :: p.raw.toList ∨
        rest = [] ∧ p.raw.toList = []) :
    p.StatedBy
      ("    ".toList ++
        ((Keyword.text p.kind).toList ++ rest)) := by
  have hWord := PropertyKind.isWord_text p.kind
  have hBlank : Text.isWhite ' ' = true := by decide
  have hIndent : "    ".toList = [' ', ' ', ' ', ' '] := by
    decide
  have hTrim :
      Text.trimStart
          ("    ".toList ++
            ((Keyword.text p.kind).toList ++ rest)) =
        (Keyword.text p.kind).toList ++ rest := by
    cases hText : (Keyword.text p.kind).toList with
    | nil => exact absurd hText hWord.1
    | cons c cs =>
        have hFirst := hWord.2 c (by simp [hText])
        simp [Text.trimStart, hIndent, hBlank, hFirst]
  refine
    ⟨Or.inl (by simp [hIndent]), hWord.not_mem hBlank, ?_⟩
  rw [hTrim]
  rcases hRest with rfl | ⟨rfl, hRaw⟩
  · exact Or.inl rfl
  · exact Or.inr ⟨List.append_nil _, hRaw⟩

/- A property is the same without a return if it has none. -/
theorem Property.withoutReturn_eq_iff {p : Property} :
    p.withoutReturn = p ↔
      p.raw.toList.getLast? ≠ some '\r' := by
  rw [← Text.dropReturn_eq_iff]
  constructor
  · intro hSame
    have hRaw := congrArg (·.raw.toList) hSame
    simpa [withoutReturn] using hRaw
  · intro hSame
    rw [withoutReturn, hSame, String.ofList_toList]

/- The content of a line: the keyword, and what is after it. -/
theorem Property.render_toList (p : Property) :
    p.render.toList =
      (Keyword.text p.kind).toList ++
        if p.raw = "" then [] else ' ' :: p.raw.toList := by
  unfold render
  split <;> simp

/- The line of a property states it. -/
theorem Property.statedBy_line (p : Property) :
    p.StatedBy p.line := by
  unfold line
  rw [render_toList]
  apply statedBy_indent
  split
  · rename_i hRaw
    exact Or.inr ⟨rfl, by rw [hRaw]; rfl⟩
  · exact Or.inl rfl

/- With a line feed after it, the argument is cut. -/
theorem Property.withoutReturn_statedBy_line (p : Property) :
    p.withoutReturn.StatedBy (Text.dropReturn p.line) := by
  unfold line
  rw [render_toList]
  split
  · rename_i hRaw
    have hWord := PropertyKind.isWord_text p.kind
    rw [List.append_nil, Text.dropReturn_append _ hWord.1,
      hWord.dropReturn_eq,
      ← List.append_nil (Keyword.text p.kind).toList]
    apply statedBy_indent
    right
    simp [withoutReturn, hRaw, Text.dropReturn]
  · rename_i hRaw
    have hSome : p.raw.toList ≠ [] := by
      simpa using hRaw
    have hCut :=
      Text.dropReturn_append
        ("    ".toList ++
          ((Keyword.text p.kind).toList ++ [' '])) hSome
    simp only [List.append_assoc, List.singleton_append] at hCut
    rw [hCut]
    apply statedBy_indent
    left
    simp [withoutReturn]

/- A line has a line feed only if its argument has one. -/
theorem Property.newline_not_mem_line
    {p : Property}
    (hRaw : '\n' ∉ p.raw.toList) :
    '\n' ∉ p.line := by
  have hText :=
    (PropertyKind.isWord_text p.kind).not_mem
      (c := '\n') (by decide)
  unfold line
  rw [render_toList]
  split <;> simp [hText, hRaw]

------------------------------------------------------------
-- The Text of a Block
------------------------------------------------------------

namespace Instruction

/- A block's text: the verb, and a new line a property. -/
theorem render_toList (block : Instruction) :
    block.render.toList =
      (Keyword.text block.verb).toList ++
        block.properties.flatMap (fun p => '\n' :: p.line) := by
  have hFold :
      ∀ (properties : List Property) (text : String),
        (properties.foldl
          (fun text p => text ++ "\n    " ++ p.render)
          text).toList =
          text.toList ++
            properties.flatMap (fun p => '\n' :: p.line) := by
    intro properties
    induction properties with
    | nil => simp
    | cons p properties ih =>
        intro text
        rw [List.foldl_cons, ih]
        simp [Property.line]
  exact hFold block.properties (Keyword.text block.verb)

/- The lines of a text that starts with some properties. -/
theorem lines_properties
    {properties : List Property}
    {first : List Char}
    (hFirst : '\n' ∉ first)
    (hFree : ∀ p ∈ properties, '\n' ∉ p.raw.toList)
    (rest : List Char) :
    Text.lines
        (first ++
          properties.flatMap (fun p => '\n' :: p.line) ++
          '\n' :: rest) =
      Text.dropReturn first ::
        (properties.map (fun p => Text.dropReturn p.line) ++
          Text.lines rest) := by
  induction properties generalizing first with
  | nil =>
      simpa using Text.lines_append_newline hFirst rest
  | cons p properties ih =>
      have hLine :=
        Property.newline_not_mem_line (hFree p (by simp))
      have hRest :=
        ih hLine
          (fun q hMem => hFree q (List.mem_cons_of_mem _ hMem))
      rw [List.flatMap_cons, List.cons_append,
        List.append_assoc, List.cons_append,
        Text.lines_append_newline hFirst, hRest]
      simp

/-
  Lines with a verb and its properties, up to a break or the
  end, are read as the block that they state.
-/
theorem ofLinesFrom_block
    {number : Nat}
    {verb : Verb}
    {properties : List Property}
    {first : List Char}
    {body rest : List (List Char)}
    {more : List Instruction}
    (hVerb : verb.StatedBy first)
    (hBody : List.Forall₂ Property.StatedBy properties body)
    (hRest :
      ∀ line, rest.head? = some line → Line.IsBreak line)
    (hMore :
      ofLinesFrom (number + 1 + body.length) none rest =
        .ok more) :
    ofLinesFrom number none (first :: (body ++ rest)) =
      .ok (⟨number, verb, properties⟩ :: more) := by
  have hUnbroken : ∀ line ∈ body, ¬ Line.IsBreak line := by
    clear hMore
    induction hBody with
    | nil => simp
    | cons hFirst _ ih =>
        rw [List.forall_mem_cons]
        exact ⟨hFirst.1.not_isBreak, ih⟩
  have hKind :=
    LineKind.ofLine_eq_heading_iff.mpr ⟨hVerb.isHeading, rfl⟩
  have hRead := Verb.ofContent_eq_ok_iff.mpr hVerb
  unfold ofLinesFrom
  simp only [hKind, hRead]
  apply ofLinesFrom_some_eq_ok_iff.mpr
  rw [LineRun.front_append hUnbroken hRest,
    LineRun.back_append hUnbroken hRest]
  exact ⟨properties, more, hBody, hMore, rfl⟩

------------------------------------------------------------
-- Reading Again
------------------------------------------------------------

/-
  What rendered blocks are read as: each argument that a line
  follows is without the carriage return at its end, and a
  block takes a line for its verb, one for each property, and
  one for the break.
-/
def reread : Nat → List Instruction → List Instruction
| _, [] => []
| number, [block] =>
    [⟨number, block.verb,
      block.properties.dropLast.map Property.withoutReturn ++
        block.properties.getLast?.toList⟩]
| number, block :: next :: blocks =>
    ⟨number, block.verb,
      block.properties.map Property.withoutReturn⟩ ::
      reread (number + block.properties.length + 2)
        (next :: blocks)

/- Lines with a line feed after them state what is left. -/
theorem forall₂_withoutReturn (properties : List Property) :
    List.Forall₂ Property.StatedBy
      (properties.map Property.withoutReturn)
      (properties.map (fun p => Text.dropReturn p.line)) := by
  rw [List.forall₂_map_left_iff, List.forall₂_map_right_iff,
    List.forall₂_same]
  exact fun p _ => p.withoutReturn_statedBy_line

/-
  The last block keeps its last argument, since no line feed
  comes after it.
-/
theorem ofLinesFrom_render
    {block : Instruction}
    (hFree :
      ∀ p ∈ block.properties, '\n' ∉ p.raw.toList)
    (number : Nat) :
    ofLinesFrom number none
        (Text.lines block.render.toList) =
      .ok (reread number [block]) := by
  have hWord := Verb.isWord_text block.verb
  have hFirst := hWord.not_mem (c := '\n') (by decide)
  rw [render_toList, reread]
  rcases block.properties.eq_nil_or_concat' with
    hNone | ⟨before, p, hProperties⟩
  · rw [hNone, List.flatMap_nil, List.append_nil,
      Text.lines_eq_singleton hWord.1 hFirst]
    show ofLinesFrom number none (_ :: ([] ++ [])) = _
    exact ofLinesFrom_block rfl .nil (by simp) rfl
  · rw [hProperties] at hFree ⊢
    have hLine :=
      Property.newline_not_mem_line (hFree p (by simp))
    have hSome : p.line ≠ [] := by simp [Property.line]
    have hLines :=
      lines_properties hFirst
        (fun q hMem => hFree q (List.mem_append_left _ hMem))
        p.line
    rw [hWord.dropReturn_eq,
      Text.lines_eq_singleton hSome hLine] at hLines
    simp only [List.flatMap_append, List.flatMap_singleton,
      List.dropLast_concat, List.getLast?_concat,
      Option.toList_some, ← List.append_assoc]
    rw [hLines]
    have hBody :=
      List.rel_append (forall₂_withoutReturn before)
        (.cons p.statedBy_line .nil)
    rw [← List.append_nil (_ ++ [p.line])]
    exact ofLinesFrom_block rfl hBody (by simp) rfl

/-
  Rendered blocks are read so, if no argument has a line feed
  in it.
-/
theorem ofLinesFrom_renderAll
    {blocks : List Instruction}
    (hFree :
      ∀ block ∈ blocks, ∀ p ∈ block.properties,
        '\n' ∉ p.raw.toList)
    (number : Nat) :
    ofLinesFrom number none
        (Text.lines (renderAll blocks).toList) =
      .ok (reread number blocks) := by
  induction number, blocks using reread.induct with
  | case1 number => rfl
  | case2 number block =>
      rw [renderAll, List.map_singleton,
        String.intercalate_singleton]
      exact ofLinesFrom_render (hFree block (by simp)) number
  | case3 number block next blocks ih =>
      have hWord := Verb.isWord_text block.verb
      have hRest :=
        ih (fun b hMem => hFree b (List.mem_cons_of_mem _ hMem))
      have hText :
          (renderAll (block :: next :: blocks)).toList =
            block.render.toList ++
              '\n' :: '\n' ::
                (renderAll (next :: blocks)).toList := by
        simp [renderAll, String.intercalate_cons_cons]
      have hBreak :
          Text.lines
              ('\n' :: (renderAll (next :: blocks)).toList) =
            [] :: Text.lines
              (renderAll (next :: blocks)).toList := by
        rw [Text.lines]
      rw [hText, render_toList,
        lines_properties (hWord.not_mem (by decide))
          (hFree block (by simp)),
        hWord.dropReturn_eq, hBreak, reread]
      apply ofLinesFrom_block rfl (forall₂_withoutReturn _)
      · rintro line hHead
        cases hHead
        exact Or.inl rfl
      · have hNumber :
            number + 1 + block.properties.length + 1 =
              number + block.properties.length + 2 := by
          omega
        simp [ofLinesFrom, LineKind.ofLine, hNumber, hRest,
          Except.map]

/-
  A rendered block with a line feed at its end loses all the
  carriage returns in front of line feeds.
-/
theorem ofLinesFrom_render_append
    {block : Instruction}
    (hFree :
      ∀ p ∈ block.properties, '\n' ∉ p.raw.toList)
    (number : Nat) :
    ofLinesFrom number none
        (Text.lines (block.render.toList ++ ['\n'])) =
      .ok
        [⟨number, block.verb,
          block.properties.map Property.withoutReturn⟩] := by
  have hWord := Verb.isWord_text block.verb
  have hFirst := hWord.not_mem (c := '\n') (by decide)
  have hEnd : Text.lines [] = [] := by rw [Text.lines]
  rw [render_toList, lines_properties hFirst hFree,
    hWord.dropReturn_eq, hEnd]
  exact
    ofLinesFrom_block rfl (forall₂_withoutReturn _) (by simp)
      rfl

------------------------------------------------------------
-- What Is Kept
------------------------------------------------------------

/- What a property states is on its line. -/
theorem mem_of_statedBy
    {p : Property}
    {line : List Char}
    (hStated : p.StatedBy line)
    {c : Char}
    (hMem : c ∈ p.raw.toList) :
    c ∈ line := by
  apply (List.dropWhile_suffix Text.isWhite).subset
  rcases hStated.2.2 with hContent | ⟨_, hRaw⟩
  · rw [Text.trimStart] at hContent
    rw [hContent]
    simp [hMem]
  · simp [hRaw] at hMem

/- No argument of a block that is read has a line feed in it. -/
theorem newline_not_mem_of_ofSource
    {source : String}
    {blocks : List Instruction}
    (hSource : ofSource source = .ok blocks) :
    ∀ block ∈ blocks, ∀ p ∈ block.properties,
      '\n' ∉ p.raw.toList := by
  intro block hBlock p hP hFeed
  have hAll := ofLinesFrom_none_eq_ok_iff.mp hSource
  rcases exists_mem_of_forall₂ hAll.flip hBlock with
    ⟨run, hRun, _, first, rest, hLines, _, hStated⟩
  rcases exists_mem_of_forall₂ hStated hP with
    ⟨line, hLine, hLineStated⟩
  rcases (LineRun.mem_listFrom_iff.mp hRun).stands with
    ⟨before, after, hSplit, _⟩
  have hMem : line ∈ Text.lines source.toList := by
    rw [hSplit, hLines]
    simp [hLine]
  exact
    Text.newline_not_mem_of_mem_lines hMem
      (mem_of_statedBy hLineStated hFeed)

/- The arguments of blocks that a line follows. -/
def followed : List Instruction → List Property
| [] => []
| [block] => block.properties.dropLast
| block :: next :: blocks =>
    block.properties ++ followed (next :: blocks)

/- Properties are the same if no argument has a return. -/
theorem map_withoutReturn_eq_iff
    {properties : List Property} :
    properties.map Property.withoutReturn = properties ↔
      ∀ p ∈ properties,
        p.raw.toList.getLast? ≠ some '\r' := by
  have hEach :
      properties.map Property.withoutReturn =
          properties.map id ↔
        ∀ p ∈ properties, p.withoutReturn = id p :=
    List.map_inj_left
  rw [List.map_id] at hEach
  simpa only [id_eq, Property.withoutReturn_eq_iff] using hEach

/- A list is what comes before its last element, and that. -/
theorem dropLast_append_toList
    (properties : List Property) :
    properties.dropLast ++ properties.getLast?.toList =
      properties := by
  rcases properties.eq_nil_or_concat' with
    rfl | ⟨before, p, rfl⟩
  · rfl
  · simp

/- Verbs and keywords are read again as they were. -/
theorem map_reread
    (number : Nat)
    (blocks : List Instruction) :
    (reread number blocks).map
        (fun b => (b.verb, b.properties.map (·.kind))) =
      blocks.map
        (fun b => (b.verb, b.properties.map (·.kind))) := by
  have hKinds :
      ∀ properties : List Property,
        (properties.map Property.withoutReturn).map (·.kind) =
          properties.map (·.kind) := by
    intro properties
    rw [List.map_map]
    rfl
  induction number, blocks using reread.induct with
  | case1 number => rfl
  | case2 number block =>
      simp only [reread, List.map_cons, List.map_nil,
        List.map_append, hKinds]
      rw [← List.map_append, dropLast_append_toList]
  | case3 number block next blocks ih =>
      rw [reread, List.map_cons, ih, hKinds]
      rfl

/- The blocks have their content exactly if no argument is cut. -/
theorem sameContent_reread_iff
    (number : Nat)
    (blocks : List Instruction) :
    List.Forall₂ SameContent (reread number blocks) blocks ↔
      ∀ p ∈ followed blocks,
        p.raw.toList.getLast? ≠ some '\r' := by
  induction number, blocks using reread.induct with
  | case1 number => simp [reread, followed]
  | case2 number block =>
      rw [reread, followed, List.forall₂_cons, SameContent,
        ← map_withoutReturn_eq_iff]
      have hSplit := dropLast_append_toList block.properties
      constructor
      · rintro ⟨⟨_, hSame⟩, _⟩
        exact List.append_cancel_right (hSame.trans hSplit.symm)
      · intro hSame
        refine ⟨⟨rfl, ?_⟩, .nil⟩
        rw [hSame]
        exact hSplit
  | case3 number block next blocks ih =>
      rw [reread, followed, List.forall₂_cons, ih, SameContent,
        map_withoutReturn_eq_iff, List.forall_mem_append]
      simp

/-
  Rendering blocks that were read and reading them again gives
  as many blocks, with the same verbs and keywords.  It gives
  the same arguments exactly if none that a line follows ends
  in a carriage return.
-/
theorem content_reread
    {source : String}
    {blocks : List Instruction}
    (hSource : ofSource source = .ok blocks) :
    ∃ again,
      ofSource (renderAll blocks) = .ok again ∧
        again.map
            (fun b => (b.verb, b.properties.map (·.kind))) =
          blocks.map
            (fun b => (b.verb, b.properties.map (·.kind))) ∧
        (List.Forall₂ SameContent again blocks ↔
          ∀ p ∈ followed blocks,
            p.raw.toList.getLast? ≠ some '\r') :=
  ⟨reread 1 blocks,
    ofLinesFrom_renderAll
      (newline_not_mem_of_ofSource hSource) 1,
    map_reread 1 blocks, sameContent_reread_iff 1 blocks⟩

/- Line ends of both kinds alone cost no argument anything. -/
theorem content_reread_of_plain :
    ofSource "Hide\r\n    BaseType Cap\n\nShow" =
        .ok [⟨1, .hideItem, [⟨.baseType, "Cap"⟩]⟩,
          ⟨4, .showItem, []⟩] ∧
      ∃ again,
        ofSource
            (renderAll
              [⟨1, .hideItem, [⟨.baseType, "Cap"⟩]⟩,
                ⟨4, .showItem, []⟩]) = .ok again ∧
          List.Forall₂ SameContent again
            [⟨1, .hideItem, [⟨.baseType, "Cap"⟩]⟩,
              ⟨4, .showItem, []⟩] := by
  have hSource :
      ofSource "Hide\r\n    BaseType Cap\n\nShow" =
        .ok [⟨1, .hideItem, [⟨.baseType, "Cap"⟩]⟩,
          ⟨4, .showItem, []⟩] := by
    decide +kernel
  rcases content_reread hSource with ⟨again, hAgain, _, hSame⟩
  exact ⟨hSource, again, hAgain, hSame.mpr (by decide)⟩

/- A carriage return at the end of an argument can be lost. -/
theorem rendering_changes_content :
    ∃ source blocks again,
      ofSource source = .ok blocks ∧
        ofSource (renderAll blocks) = .ok again ∧
          ¬ List.Forall₂ SameContent again blocks := by
  refine
    ⟨"Show\n    BaseType Cap\r\r\n\nHide\n",
      [⟨1, .showItem, [⟨.baseType, "Cap\r"⟩]⟩,
        ⟨4, .hideItem, []⟩],
      [⟨1, .showItem, [⟨.baseType, "Cap"⟩]⟩,
        ⟨4, .hideItem, []⟩],
      by decide +kernel, by decide +kernel, ?_⟩
  rintro (_ | ⟨⟨_, hSame⟩, _⟩)
  revert hSame
  decide

end Instruction

end LootFilter
