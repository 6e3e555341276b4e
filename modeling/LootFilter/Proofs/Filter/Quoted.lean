import LootFilter.Filter
import LootFilter.Proofs.Evaluation.ByName
import LootFilter.Proofs.Filter.Conflicts
import LootFilter.Proofs.Filter.Rendering

/-
  Filters that list names between quotes.

  A name that has no quote in it and nothing to trim can be
  written between quotes, whatever else it looks like.  The
  source with one block that lists such names selects just the
  rows that are called so, or names the first one that no row
  is called.

  Main declarations:
    * `Argument.IsQuotable`, `Argument.quoteAll`
    * `Argument.readList_quoteAll`
    * `Instruction.ofSource_quotedSource`
    * `Catalog.called`
    * `Filter.SelectsCalled`
    * `Filter.selectsCalled_quotedSource`
-/

namespace LootFilter

------------------------------------------------------------
-- Names Between Quotes
------------------------------------------------------------

namespace Argument

/-
  Whether a text is an argument when it stands between quotes
  on a line.
-/
structure IsQuotable (text : String) : Prop where
  any : text ≠ ""
  trimmed : Text.trim text.toList = text.toList
  unquoted : '"' ∉ text.toList
  unbroken : '\n' ∉ text.toList

/- A text between quotes. -/
def quote (text : String) : List Char :=
  '"' :: (text.toList ++ ['"'])

/- Texts between quotes, with a space between two of them. -/
def quoteAll (texts : List String) : String :=
  " ".intercalate (texts.map fun t => "\"" ++ t ++ "\"")

/- The operator and a space, or nothing without one. -/
def front : Option RelationalOp → String
| some .equal => "== "
| none => ""

variable {text : String} {texts : List String}

/- The first text, and a space and a text for all others. -/
theorem toList_quoteAll_cons
    (text : String)
    (texts : List String) :
    (quoteAll (text :: texts)).toList =
      quote text ++ texts.flatMap fun t => ' ' :: quote t := by
  unfold quoteAll
  induction texts generalizing text with
  | nil => simp [quote]
  | cons next texts ih =>
      simp only [List.map_cons] at ih ⊢
      rw [String.intercalate_cons_cons, String.toList_append,
        ih]
      simp [quote]

/- What is between quotes is the argument that they spell. -/
theorem IsQuotable.spells
    (hText : IsQuotable text) :
    Spells (quote text) text.toList := by
  have hSome : text.toList ≠ [] := by
    simpa using hText.any
  exact
    ⟨text.toList, Written.quoted hText.unquoted, hText.trimmed,
      hSome⟩

/- The pieces of texts that stand behind another one. -/
def piecesAfter (texts : List String) : List Piece :=
  texts.map fun t => ⟨[' '], quote t, t.toList⟩

/- Texts between quotes continue a list. -/
theorem continues_piecesAfter
    (hTexts : ∀ t ∈ texts, IsQuotable t) :
    Continues (texts.flatMap fun t => ' ' :: quote t)
      (piecesAfter texts) [] := by
  induction texts with
  | nil => exact .ends ⟨by simp [IsApart], Or.inl rfl⟩
  | cons text texts ih =>
      rw [List.forall_mem_cons] at hTexts
      have hMore :=
        @Continues.more ⟨[' '], quote text, text.toList⟩ _ _ _
          (by simp [Text.IsBlank, Text.isBlank]) rfl
          hTexts.1.spells (ih hTexts.2)
      simpa [piecesAfter] using hMore

/- Texts between quotes are a list of arguments. -/
theorem readList_quoteAll
    (kind : PropertyKind)
    (hSome : texts ≠ [])
    (hTexts : ∀ t ∈ texts, IsQuotable t) :
    readList kind (quoteAll texts).toList =
      ⟨texts.map String.toList, none⟩ := by
  cases texts with
  | nil => exact absurd rfl hSome
  | cons text texts =>
      rw [List.forall_mem_cons] at hTexts
      have hLists :
          Lists (quoteAll (text :: texts)).toList
            (⟨[], quote text, text.toList⟩ ::
              piecesAfter texts) [] :=
        lists_cons_iff.mpr
          ⟨by simp [Text.IsBlank], hTexts.1.spells, _,
            toList_quoteAll_cons text texts,
            continues_piecesAfter hTexts.2⟩
      apply readList_eq_iff.mpr
      refine ⟨_, _, hLists, ?_⟩
      simp [piecesAfter, Function.comp_def]

/- No text between quotes is the operator. -/
theorem token_quoteAll_ne
    (hSome : texts ≠ []) :
    token (Text.skipBlanks (quoteAll texts).toList) ≠
      "==".toList := by
  cases texts with
  | nil => exact absurd rfl hSome
  | cons text texts =>
      rw [toList_quoteAll_cons, quote, List.cons_append]
      simp [Text.skipBlanks, Text.isBlank, token]

/- The operator is read in front of quotes, and the texts. -/
theorem operator_quoteAll
    (op : Option RelationalOp)
    (hSome : texts ≠ [])
    (hTexts : ∀ t ∈ texts, IsQuotable t) :
    ∃ rest,
      operator (front op ++ quoteAll texts).toList =
          (op, rest) ∧
        ∀ kind,
          readList kind rest =
            ⟨texts.map String.toList, none⟩ := by
  rcases op with _ | ⟨⟩
  · refine ⟨(quoteAll texts).toList, ?_, ?_⟩
    · rw [front, String.empty_append]
      exact operator_of_token_ne (token_quoteAll_ne hSome)
    · exact fun kind => readList_quoteAll kind hSome hTexts
  · refine ⟨' ' :: (quoteAll texts).toList, ?_, ?_⟩
    · rw [front, String.toList_append]
      exact operator_equal _
    · intro kind
      rw [readList_cons_space]
      exact readList_quoteAll kind hSome hTexts

/- Nothing between quotes breaks the line. -/
theorem newline_not_mem_quoteAll
    (hTexts : ∀ t ∈ texts, IsQuotable t) :
    '\n' ∉ (quoteAll texts).toList := by
  cases texts with
  | nil => simp [quoteAll]
  | cons text texts =>
      have hAll := List.forall_mem_cons.mp hTexts
      rw [toList_quoteAll_cons]
      simpa [quote, hAll.1.unbroken] using
        fun t hMem => (hAll.2 t hMem).unbroken

/- The last quote stands at the end. -/
theorem getLast?_quoteAll
    (hSome : texts ≠ []) :
    (quoteAll texts).toList.getLast? = some '"' := by
  induction texts with
  | nil => exact absurd rfl hSome
  | cons text texts ih =>
      cases texts with
      | nil =>
          rw [toList_quoteAll_cons, List.flatMap_nil,
            List.append_nil, quote, ← List.cons_append]
          exact List.getLast?_concat
      | cons next texts =>
          have hLast := ih (List.cons_ne_nil _ _)
          have hText :
              (quoteAll (text :: next :: texts)).toList =
                quote text ++
                  ' ' :: (quoteAll (next :: texts)).toList := by
            simp [toList_quoteAll_cons]
          rw [hText, List.getLast?_append, List.getLast?_cons,
            hLast]
          rfl

end Argument

------------------------------------------------------------
-- The Source
------------------------------------------------------------

/- A block with one line of names between quotes. -/
def Filter.quotedSource
    (verb : Verb)
    (op : Option RelationalOp)
    (texts : List String) : String :=
  Keyword.text verb ++ "\n" ++ "    BaseType " ++
    Argument.front op ++ Argument.quoteAll texts ++ "\n"

variable {c : Catalog} {verb : Verb} {op : Option RelationalOp}
variable {text : String} {texts : List String}

/- The property on the line. -/
def Property.quoted
    (op : Option RelationalOp)
    (texts : List String) : Property :=
  Property.byName (Argument.front op ++ Argument.quoteAll texts)

/- Its text ends in a quote, so it is cut nowhere. -/
theorem Property.raw_quoted
    (op : Option RelationalOp)
    (hSome : texts ≠ [])
    (hTexts : ∀ t ∈ texts, Argument.IsQuotable t) :
    (quoted op texts).raw ≠ "" ∧
      '\n' ∉ (quoted op texts).raw.toList ∧
      (quoted op texts).withoutReturn = quoted op texts := by
  have hLast :
      (quoted op texts).raw.toList.getLast? = some '"' := by
    simp [quoted, byName, Argument.getLast?_quoteAll hSome]
  have hOp : '\n' ∉ (Argument.front op).toList := by
    rcases op with _ | ⟨⟩ <;> simp [Argument.front]
  refine ⟨?_, ?_, ?_⟩
  · intro hEmpty
    rw [hEmpty] at hLast
    cases hLast
  · simpa [quoted, byName, hOp] using
      Argument.newline_not_mem_quoteAll hTexts
  · rw [withoutReturn_eq_iff, hLast]
    decide

namespace Instruction

/- The source is the rendered block and a line feed. -/
theorem toList_quotedSource
    (hRaw : (Property.quoted op texts).raw ≠ "") :
    (Filter.quotedSource verb op texts).toList =
      (Instruction.mk 1 verb
          [Property.quoted op texts]).render.toList ++
        ['\n'] := by
  unfold Property.quoted Property.byName at hRaw
  rw [render_toList]
  simp [Filter.quotedSource, Property.line,
    Property.render_toList, Property.quoted, Property.byName,
    Keyword.text, hRaw]

/- So it has this block and no other. -/
theorem ofSource_quotedSource
    (verb : Verb)
    (op : Option RelationalOp)
    (hSome : texts ≠ [])
    (hTexts : ∀ t ∈ texts, Argument.IsQuotable t) :
    ofSource (Filter.quotedSource verb op texts) =
      .ok [⟨1, verb, [Property.quoted op texts]⟩] := by
  rcases Property.raw_quoted op hSome hTexts with
    ⟨hRaw, hFree, hSame⟩
  unfold ofSource
  rw [toList_quotedSource hRaw,
    ofLinesFrom_render_append (by simpa using hFree)]
  simp [hSame]

/- Its names are looked up one after the other. -/
theorem select_quoted
    (c : Catalog)
    (verb : Verb)
    (op : Option RelationalOp)
    (hSome : texts ≠ [])
    (hTexts : ∀ t ∈ texts, Argument.IsQuotable t) :
    (Instruction.mk 1 verb [Property.quoted op texts]).select
        c =
      (texts.map String.toList).foldlM
        (Selection.addFragment c op) Selection.empty := by
  rcases Argument.operator_quoteAll op hSome hTexts with
    ⟨rest, hOperator, hRead⟩
  unfold select
  rw [List.foldlM_cons]
  simp only [List.foldlM_nil, bind_pure, Selection.apply,
    Property.quoted, Property.byName]
  rw [hOperator]
  dsimp only
  rw [Argument.feed_eq, hRead]
  exact bind_pure _

end Instruction

------------------------------------------------------------
-- What Is Called So
------------------------------------------------------------

/- Whether a row is called what a text says, or so in part. -/
def Entry.IsCalled
    (row : Entry)
    (op : Option RelationalOp)
    (text : String) : Prop :=
  (op = some .equal ∧ row.name = text) ∨
    (op = none ∧ text.toList <:+: row.name.toList)

/- Then the text matches it. -/
theorem Entry.matches_toList_iff
    {row : Entry} :
    row.Matches op text.toList = true ↔
      row.IsCalled op text := by
  rw [Entry.matches_iff, String.toList_inj]
  rfl

instance
    (row : Entry)
    (op : Option RelationalOp)
    (text : String) :
    Decidable (row.IsCalled op text) :=
  decidable_of_iff _ Entry.matches_toList_iff

namespace Catalog

/- Whether an item is called so, or a rune with its code. -/
def Calls
    (c : Catalog)
    (op : Option RelationalOp)
    (text : String) : Prop :=
  ∃ row : Entry,
    (row ∈ c.names ∨
        (row ∈ c.runes ∧ isRuneKey row.key = true)) ∧
      row.IsCalled op text

/-
  The keys of the rows that are called so: those of items come
  before those of runes.
-/
def called
    (c : Catalog)
    (op : Option RelationalOp)
    (text : String) : List String :=
  ((c.names ++ c.runes.filter (isRuneKey ·.key)).filter
    (·.IsCalled op text)).map (·.key)

/- They are the ones that the text matches. -/
theorem matching_toList
    (c : Catalog)
    (op : Option RelationalOp)
    (text : String) :
    c.matching op text.toList = c.called op text := by
  have hRow : ∀ row : Entry,
      row.Matches op text.toList =
        decide (row.IsCalled op text) := by
    intro row
    rw [Bool.eq_iff_iff, decide_eq_true_iff]
    exact Entry.matches_toList_iff
  simp only [matching, called, nameRows, hRow]

/- There are some if an item or a rune is called so. -/
theorem called_ne_nil_iff :
    c.called op text ≠ [] ↔ c.Calls op text := by
  have hRows :
      c.names ++ c.runes.filter (isRuneKey ·.key) =
        c.nameRows :=
    rfl
  rw [called, hRows, Ne, List.map_eq_nil_iff,
    List.filter_eq_nil_iff]
  simp only [Calls, mem_nameRows_iff, decide_eq_true_eq,
    not_forall, not_not, exists_prop]

end Catalog

------------------------------------------------------------
-- What Is Selected
------------------------------------------------------------

namespace Instruction

/- The block is resolved if each name calls some row. -/
theorem exists_evaluate_quoted_iff
    (c : Catalog)
    (verb : Verb)
    (op : Option RelationalOp)
    (hSome : texts ≠ [])
    (hTexts : ∀ t ∈ texts, Argument.IsQuotable t) :
    (∃ rule,
        (Instruction.mk 1 verb
          [Property.quoted op texts]).evaluate c =
            .ok rule) ↔
      ∀ t ∈ texts, c.Calls op t := by
  rw [exists_rule_iff, select_quoted c verb op hSome hTexts,
    Selection.exists_foldlM_iff
      (Selection.isSettled_addFragment c op)]
  simp only [List.forall_mem_map,
    Selection.exists_addFragment_iff, Catalog.matching_toList,
    Catalog.called_ne_nil_iff]

/- It selects all that is called so. -/
theorem eq_of_evaluate_quoted
    {rule : Rule}
    (hSome : texts ≠ [])
    (hTexts : ∀ t ∈ texts, Argument.IsQuotable t)
    (hEvaluate :
      (Instruction.mk 1 verb
        [Property.quoted op texts]).evaluate c = .ok rule) :
    rule =
      ⟨1, verb,
        some (BaseSet.ofList (texts.flatMap (c.called op))),
        none, []⟩ := by
  rcases evaluate_eq_ok_iff.mp hEvaluate with
    ⟨s, hSelect, rfl⟩
  rw [select_quoted c verb op hSome hTexts] at hSelect
  have hNext :=
    Selection.eq_add_of_foldlM Selection.addNamed_addNamed
      (Selection.eq_addNamed_of_addFragment c op)
      (by simpa using hSome) hSelect
  rw [List.flatMap_map] at hNext
  simp only [Catalog.matching_toList] at hNext
  rw [hNext]
  rfl

/- The first name that no row is called by is reported. -/
theorem evaluate_quoted_eq_error
    (c : Catalog)
    (verb : Verb)
    (op : Option RelationalOp)
    {before after : List String}
    (hTexts :
      ∀ t ∈ before ++ text :: after, Argument.IsQuotable t)
    (hBefore : ∀ t ∈ before, c.Calls op t)
    (hText : ¬ c.Calls op text) :
    (Instruction.mk 1 verb
        [Property.quoted op (before ++ text :: after)]).evaluate
        c =
      .error ⟨1, .noBaseTypeMatch text⟩ := by
  have hEach :
      ∀ arg ∈ before.map String.toList,
        ∃ next,
          Selection.addFragment c op Selection.empty arg =
            .ok next := by
    simpa only [List.forall_mem_map,
      Selection.exists_addFragment_iff, Catalog.matching_toList,
      Catalog.called_ne_nil_iff] using hBefore
  have hNone : c.called op text = [] := by
    rwa [← Catalog.called_ne_nil_iff, not_not] at hText
  have hError :
      Selection.addFragment c op Selection.empty text.toList =
        .error (.noBaseTypeMatch text) := by
    unfold Selection.addFragment
    rw [Catalog.matching_toList, hNone, String.ofList_toList]
  have hSelect :=
    select_quoted c verb op (by simp) hTexts
  rw [(Selection.foldlM_eq_error_iff
    (Selection.isSettled_addFragment c op)).mpr
      ⟨before.map String.toList, text.toList,
        after.map String.toList, by simp, hEach, hError⟩]
    at hSelect
  exact evaluate_eq_error_iff.mpr ⟨_, hSelect, rfl⟩

end Instruction

namespace Filter

/- What one block that is resolved makes of a source. -/
theorem ofSource_of_evaluate
    {source : String}
    {block : Instruction}
    (hSource : Instruction.ofSource source = .ok [block]) :
    ofSource c source =
      match block.evaluate c with
      | .error e => .error (.format e)
      | .ok rule => .ok ⟨[rule]⟩ := by
  unfold ofSource
  rw [hSource]
  dsimp only [Catalog.evaluateEach]
  cases block.evaluate c with
  | error e => rfl
  | ok rule =>
      have hAlone : validate [rule] = .ok () :=
        validate_eq_ok_iff.mpr (List.pairwise_singleton _ _)
      dsimp only
      rw [hAlone]

/-
  What is to be known of a source that lists names between
  quotes: when it is a filter, which one, and what is reported
  otherwise.
-/
structure SelectsCalled
    (c : Catalog)
    (verb : Verb)
    (op : Option RelationalOp)
    (texts : List String) : Prop where
  succeeds :
    (∃ filter,
        ofSource c (quotedSource verb op texts) =
          .ok filter) ↔
      ∀ t ∈ texts, c.Calls op t
  rule :
    ∀ filter,
      ofSource c (quotedSource verb op texts) = .ok filter →
        ∃ bases : BaseSet,
          filter.rules = [⟨1, verb, some bases, none, []⟩] ∧
            bases.toList =
              (texts.flatMap (c.called op)).eraseDups
  unmatched :
    ∀ before text after,
      texts = before ++ text :: after →
        (∀ t ∈ before, c.Calls op t) →
          ¬ c.Calls op text →
            ofSource c (quotedSource verb op texts) =
              .error (.format ⟨1, .noBaseTypeMatch text⟩)

/- Names between quotes select what is called so. -/
theorem selectsCalled_quotedSource
    (c : Catalog)
    (verb : Verb)
    (op : Option RelationalOp)
    (hSome : texts ≠ [])
    (hTexts : ∀ t ∈ texts, Argument.IsQuotable t) :
    SelectsCalled c verb op texts := by
  have hSource :=
    Instruction.ofSource_quotedSource verb op hSome hTexts
  have hRule : ∀ filter,
      ofSource c (quotedSource verb op texts) = .ok filter ↔
        ∃ rule,
          (Instruction.mk 1 verb
            [Property.quoted op texts]).evaluate c =
              .ok rule ∧
            filter = ⟨[rule]⟩ := by
    intro filter
    rw [ofSource_of_evaluate hSource]
    cases Instruction.evaluate c _ <;> simp [eq_comm]
  constructor
  · rw [← Instruction.exists_evaluate_quoted_iff c verb op
      hSome hTexts]
    constructor
    · rintro ⟨filter, hFilter⟩
      rcases (hRule filter).mp hFilter with
        ⟨rule, hEvaluate, _⟩
      exact ⟨rule, hEvaluate⟩
    · rintro ⟨rule, hEvaluate⟩
      exact ⟨_, (hRule _).mpr ⟨rule, hEvaluate, rfl⟩⟩
  · intro filter hFilter
    rcases (hRule filter).mp hFilter with
      ⟨rule, hEvaluate, rfl⟩
    rw [Instruction.eq_of_evaluate_quoted hSome hTexts
      hEvaluate]
    exact ⟨_, rfl, BaseSet.toList_ofList _⟩
  · rintro before text after rfl hBefore hText
    rw [ofSource_of_evaluate hSource,
      Instruction.evaluate_quoted_eq_error c verb op hTexts
        hBefore hText]

/- Two names of a small catalog, one a part of the other. -/
theorem selectsCalled_quotedSource_cap :
    (∀ t ∈ ["War Cap", "Cap"], Argument.IsQuotable t) ∧
      SelectsCalled Instruction.capCatalog .hideItem none
        ["War Cap", "Cap"] ∧
      (["War Cap", "Cap"].flatMap
          (Instruction.capCatalog.called none)).eraseDups =
        ["skp", "cap", "r01"] := by
  have hTexts :
      ∀ t ∈ ["War Cap", "Cap"], Argument.IsQuotable t := by
    simp only [List.forall_mem_cons]
    exact
      ⟨⟨by decide, by decide, by decide, by decide⟩,
        ⟨by decide, by decide, by decide, by decide⟩, by simp⟩
  exact
    ⟨hTexts,
      selectsCalled_quotedSource Instruction.capCatalog .hideItem
        none (by simp) hTexts,
      by decide +kernel⟩

end Filter

end LootFilter
