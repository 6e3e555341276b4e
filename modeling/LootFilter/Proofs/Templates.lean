import LootFilter.Proofs.Writer.Rows
import Mathlib.Data.List.Infix
import Mathlib.Data.Nat.Find

/-
  The names that a template gives.

  Substitution goes through a template once, from left to
  right.  The template falls into pieces: each placeholder is
  the leftmost one in what follows the one before it, and what
  follows the last one has none.  A name is the pieces with
  the current name between them.  The pieces depend on the
  template alone, so what looks like a placeholder in the
  current name, or where it meets a piece, stands as it is.

  Main declarations:
    * `Text.OccursAt`
    * `Text.substitute_append`
    * `Template.SplitsInto`
    * `Template.exists_splitsInto`
    * `Template.mem_places_iff`
    * `Rule.FillsOnce`
    * `Rule.fillsOnce_of_template`
-/

namespace LootFilter

open Json (Value)

------------------------------------------------------------
-- Occurrences
------------------------------------------------------------

namespace Text

variable {part cs before rest holder value : List Char}
variable {n : Nat}

/- Whether a text occurs after so many characters. -/
def OccursAt
    (part cs : List Char)
    (n : Nat) : Prop :=
  part <+: cs.drop n

instance
    (part cs : List Char)
    (n : Nat) :
    Decidable (OccursAt part cs n) := by
  unfold OccursAt
  infer_instance

/- Behind a beginning are the occurrences of what follows. -/
theorem occursAt_append
    (part before cs : List Char)
    (n : Nat) :
    OccursAt part (before ++ cs) (before.length + n) ↔
      OccursAt part cs n := by
  unfold OccursAt
  rw [List.drop_append,
    List.drop_eq_nil_of_le (Nat.le_add_right _ _),
    Nat.add_sub_cancel_left, List.nil_append]

/- A text occurs where it was put. -/
theorem occursAt_length
    (before part rest : List Char) :
    OccursAt part (before ++ (part ++ rest)) before.length := by
  simp [OccursAt]

/- A part with characters begins before the end. -/
theorem OccursAt.lt_length
    (hOccurs : OccursAt part cs n)
    (hPart : part ≠ []) :
    n < cs.length := by
  have hFits := hOccurs.length_le
  have hSome := List.length_pos_iff.mpr hPart
  rw [List.length_drop] at hFits
  omega

/- More at the end leaves an occurrence. -/
theorem OccursAt.append
    (hOccurs : OccursAt part cs n)
    (hPart : part ≠ [])
    (rest : List Char) :
    OccursAt part (cs ++ rest) n := by
  have hLt := hOccurs.lt_length hPart
  unfold OccursAt at hOccurs ⊢
  rw [List.drop_append_of_le_length (Nat.le_of_lt hLt)]
  exact hOccurs.trans (List.prefix_append _ _)

/- A text falls apart at an occurrence. -/
theorem OccursAt.exists_eq_append
    (hOccurs : OccursAt part cs n)
    (hPart : part ≠ []) :
    ∃ before rest,
      cs = before ++ (part ++ rest) ∧ before.length = n := by
  rcases hOccurs with ⟨rest, hRest⟩
  have hLt := OccursAt.lt_length ⟨rest, hRest⟩ hPart
  refine
    ⟨cs.take n, rest, ?_,
      List.length_take_of_le (Nat.le_of_lt hLt)⟩
  rw [hRest, List.take_append_drop]

------------------------------------------------------------
-- Substitution
------------------------------------------------------------

/- Without a placeholder nothing is replaced. -/
theorem substitute_of_forall_not
    (hNone : ∀ n, ¬ OccursAt holder cs n) :
    substitute holder value cs = cs := by
  induction cs with
  | nil => rw [substitute]
  | cons c cs ih =>
      have hHere : ¬ holder.isPrefixOf (c :: cs) := by
        rw [List.isPrefixOf_iff_prefix]
        exact hNone 0
      have hLater : ∀ n, ¬ OccursAt holder cs n :=
        fun n => hNone (n + 1)
      rw [substitute, if_neg hHere, ih hLater]

/- The first placeholder is replaced, and the rest follows. -/
theorem substitute_append
    (hHolder : holder ≠ [])
    (hFirst :
      ∀ n < before.length,
        ¬ OccursAt holder (before ++ (holder ++ rest)) n) :
    substitute holder value (before ++ (holder ++ rest)) =
      before ++ (value ++ substitute holder value rest) := by
  induction before with
  | nil =>
      obtain ⟨c, cs, rfl⟩ :=
        List.exists_cons_of_ne_nil hHolder
      have hHere :
          (c :: cs).isPrefixOf (c :: (cs ++ rest)) := by
        rw [List.isPrefixOf_iff_prefix]
        exact List.prefix_append (c :: cs) rest
      simp [substitute, hHere]
  | cons c before ih =>
      have hHere :
          ¬ holder.isPrefixOf
            (c :: (before ++ (holder ++ rest))) := by
        rw [List.isPrefixOf_iff_prefix]
        exact hFirst 0 (Nat.succ_pos _)
      have hLater :
          ∀ n < before.length,
            ¬ OccursAt holder (before ++ (holder ++ rest)) n :=
        fun n hLt => hFirst (n + 1) (Nat.succ_lt_succ hLt)
      rw [List.cons_append, substitute, if_neg hHere, ih hLater,
        List.cons_append]

end Text

------------------------------------------------------------
-- Placeholders
------------------------------------------------------------

namespace Template

variable {text piece rest : String} {pieces : List String}
variable {m n : Nat}

/- Whether a placeholder begins after so many characters. -/
def HoldsAt
    (text : String)
    (n : Nat) : Prop :=
  Text.OccursAt placeholder.toList text.toList n

instance (text : String) (n : Nat) :
    Decidable (HoldsAt text n) := by
  unfold HoldsAt
  infer_instance

/- A placeholder has characters. -/
theorem toList_placeholder_ne_nil :
    placeholder.toList ≠ [] := by
  decide

/- What a placeholder ends and begins with is one sign. -/
theorem succ_eq_of_drop_prefix :
    ∀ d < placeholder.length,
      0 < d →
        placeholder.toList.drop d <+: placeholder.toList →
          d + 1 = placeholder.length := by
  decide

/- So placeholders that overlap share that sign alone. -/
theorem HoldsAt.succ_eq_of_overlap
    (hFirst : HoldsAt text m)
    (hSecond : HoldsAt text n)
    (hAfter : m < n)
    (hOverlap : n < m + placeholder.length) :
    n + 1 = m + placeholder.length := by
  obtain ⟨d, rfl⟩ :=
    Nat.exists_eq_add_of_le (Nat.le_of_lt hAfter)
  have hEnd :
      placeholder.toList.drop d <+:
        text.toList.drop (m + d) := by
    rw [← List.drop_drop]
    exact List.IsPrefix.drop hFirst d
  have hShared :
      placeholder.toList.drop d <+: placeholder.toList := by
    apply List.prefix_of_prefix_length_le hEnd hSecond
    rw [List.length_drop]
    exact Nat.sub_le _ _
  have hSign :=
    succ_eq_of_drop_prefix d (by omega) (by omega) hShared
  omega

/- Behind a beginning are the placeholders of what follows. -/
theorem holdsAt_append
    (before text : String)
    (n : Nat) :
    HoldsAt (before ++ text) (before.length + n) ↔
      HoldsAt text n := by
  unfold HoldsAt
  rw [String.toList_append, ← String.length_toList]
  exact Text.occursAt_append _ _ _ _

/- Behind a placeholder too. -/
theorem holdsAt_behind :
    HoldsAt (piece ++ placeholder ++ rest)
        (piece.length + placeholder.length + n) ↔
      HoldsAt rest n := by
  rw [← String.length_append, holdsAt_append]

/- A placeholder begins where it was put. -/
theorem holdsAt_length (piece rest : String) :
    HoldsAt (piece ++ placeholder ++ rest) piece.length := by
  unfold HoldsAt
  rw [String.toList_append, String.toList_append,
    List.append_assoc, ← String.length_toList]
  exact Text.occursAt_length _ _ _

/- A text falls apart at a placeholder. -/
theorem HoldsAt.exists_eq_append
    (hHolds : HoldsAt text n) :
    ∃ piece rest,
      text = piece ++ placeholder ++ rest ∧
        piece.length = n := by
  rcases Text.OccursAt.exists_eq_append hHolds
      toList_placeholder_ne_nil with
    ⟨before, rest, hText, hLength⟩
  refine
    ⟨String.ofList before, String.ofList rest, ?_, ?_⟩
  · rw [← String.toList_inj, hText]
    simp only [String.toList_append, String.toList_ofList,
      List.append_assoc]
  · rw [String.length_ofList, hLength]

/- A placeholder in a piece begins before its end. -/
theorem HoldsAt.lt_length
    (hHolds : HoldsAt piece n) :
    n < piece.length := by
  rw [← String.length_toList]
  exact
    Text.OccursAt.lt_length hHolds toList_placeholder_ne_nil

/- More at the end leaves a placeholder in a piece. -/
theorem HoldsAt.append
    (hHolds : HoldsAt piece n)
    (rest : String) :
    HoldsAt (piece ++ rest) n := by
  unfold HoldsAt at hHolds ⊢
  rw [String.toList_append]
  exact hHolds.append toList_placeholder_ne_nil rest.toList

------------------------------------------------------------
-- Filling
------------------------------------------------------------

/- A template without a placeholder is the name itself. -/
theorem fillTemplate_of_forall_not
    (hNone : ∀ n, ¬ HoldsAt text n)
    (current : String) :
    fillTemplate text current = text := by
  unfold fillTemplate
  rw [Text.substitute_of_forall_not hNone, String.ofList_toList]

/- The first placeholder is filled, and then what follows. -/
theorem fillTemplate_append
    (hFirst :
      ∀ n < piece.length,
        ¬ HoldsAt (piece ++ placeholder ++ rest) n)
    (current : String) :
    fillTemplate (piece ++ placeholder ++ rest) current =
      piece ++ current ++ fillTemplate rest current := by
  unfold HoldsAt at hFirst
  rw [String.toList_append, String.toList_append,
    List.append_assoc, ← String.length_toList] at hFirst
  rw [← String.toList_inj]
  simp only [fillTemplate, String.toList_append,
    String.toList_ofList, List.append_assoc]
  exact
    Text.substitute_append toList_placeholder_ne_nil hFirst

------------------------------------------------------------
-- Pieces
------------------------------------------------------------

/-
  The pieces of a text: each placeholder is the leftmost one
  in what follows the one before it, and what follows the last
  one has none.
-/
inductive SplitsInto : String → List String → Prop where
| whole
    {text : String}
    (hNone : ∀ n, ¬ HoldsAt text n) :
    SplitsInto text [text]
| cut
    {text piece rest : String}
    {pieces : List String}
    (hText : text = piece ++ placeholder ++ rest)
    (hFirst : ∀ n < piece.length, ¬ HoldsAt text n)
    (hRest : SplitsInto rest pieces) :
    SplitsInto text (piece :: pieces)

/- A text has a piece. -/
theorem SplitsInto.ne_nil
    (hSplit : SplitsInto text pieces) :
    pieces ≠ [] := by
  cases hSplit <;> exact List.cons_ne_nil _ _

/- Every text has pieces. -/
theorem exists_splitsInto (text : String) :
    ∃ pieces, SplitsInto text pieces := by
  induction hLength : text.length using Nat.strongRecOn
    generalizing text with
  | ind length ih =>
      by_cases hSome : ∃ n, HoldsAt text n
      · have hFirst := Nat.find_spec hSome
        rcases hFirst.exists_eq_append with
          ⟨piece, rest, hText, hPlace⟩
        have hShorter : rest.length < length := by
          rw [← hLength, hText, String.length_append,
            String.length_append]
          have hSigns : 0 < placeholder.length := by decide
          omega
        rcases ih rest.length hShorter rest rfl with
          ⟨pieces, hRest⟩
        refine ⟨piece :: pieces, .cut hText ?_ hRest⟩
        intro n hLt
        rw [hPlace] at hLt
        exact Nat.find_min hSome hLt
      · exact ⟨[text], .whole (not_exists.mp hSome)⟩

/- A place of a placeholder tells what is around it. -/
theorem eq_of_append_placeholder_eq
    {other tail : String}
    (hText :
      other ++ placeholder ++ tail =
        piece ++ placeholder ++ rest)
    (hLength : other.length = piece.length) :
    other = piece ∧ tail = rest := by
  have hLists := congrArg String.toList hText
  simp only [String.toList_append, List.append_assoc] at hLists
  rw [← String.length_toList,
    ← String.length_toList] at hLength
  have hPiece :=
    String.toList_inj.mp (List.append_inj_left hLists hLength)
  rw [hPiece, String.append_right_inj] at hText
  exact ⟨hPiece, hText⟩

/- A text has no other pieces. -/
theorem SplitsInto.unique
    {others : List String}
    (hSplit : SplitsInto text pieces)
    (hOther : SplitsInto text others) :
    others = pieces := by
  induction hSplit generalizing others with
  | whole hNone =>
      cases hOther with
      | whole => rfl
      | cut hText =>
          exact absurd (hText ▸ holdsAt_length _ _) (hNone _)
  | @cut text piece rest pieces hText hFirst hRest ih =>
      cases hOther with
      | whole hNone =>
          exact absurd (hText ▸ holdsAt_length _ _) (hNone _)
      | @cut _ other tail others hAgain hLeft hTail =>
          have hHere : HoldsAt text piece.length :=
            hText ▸ holdsAt_length piece rest
          have hThere : HoldsAt text other.length :=
            hAgain ▸ holdsAt_length other tail
          have hSame : other.length = piece.length := by
            by_contra hNe
            rcases Nat.lt_or_gt_of_ne hNe with hLt | hGt
            · exact hFirst _ hLt hThere
            · exact hLeft _ hGt hHere
          have hParts :=
            eq_of_append_placeholder_eq
              (hAgain.symm.trans hText) hSame
          have hOthers := ih (hParts.2 ▸ hTail)
          rw [hParts.1, hOthers]

/- The pieces make the text, joined by placeholders. -/
theorem SplitsInto.intercalate_eq
    (hSplit : SplitsInto text pieces) :
    placeholder.intercalate pieces = text := by
  induction hSplit with
  | whole => exact String.intercalate_singleton
  | cut hText _ hRest ih =>
      rw [String.intercalate_cons_of_ne_nil hRest.ne_nil, ih,
        hText]

/- The pieces make the name, joined by the current name. -/
theorem SplitsInto.fillTemplate_eq
    (hSplit : SplitsInto text pieces)
    (current : String) :
    fillTemplate text current = current.intercalate pieces := by
  induction hSplit with
  | whole hNone =>
      rw [fillTemplate_of_forall_not hNone,
        String.intercalate_singleton]
  | cut hText hFirst hRest ih =>
      subst hText
      rw [fillTemplate_append hFirst, ih,
        String.intercalate_cons_of_ne_nil hRest.ne_nil]

/- No piece has a placeholder. -/
theorem SplitsInto.forall_not_holdsAt
    (hSplit : SplitsInto text pieces) :
    ∀ piece ∈ pieces, ∀ n, ¬ HoldsAt piece n := by
  induction hSplit with
  | whole hNone =>
      intro piece hMem
      rw [List.mem_singleton.mp hMem]
      exact hNone
  | @cut text first rest pieces hText hFirst hRest ih =>
      intro piece hMem
      rcases List.mem_cons.mp hMem with hHead | hTail
      · subst hHead
        intro n hHolds
        have hMore := hHolds.append (placeholder ++ rest)
        rw [← String.append_assoc, ← hText] at hMore
        exact hFirst n hHolds.lt_length hMore
      · exact ih piece hTail

------------------------------------------------------------
-- Replaced Placeholders
------------------------------------------------------------

/- Where the placeholders between pieces begin. -/
def places : List String → List Nat
| [] => []
| [_] => []
| piece :: next :: pieces =>
    piece.length ::
      (places (next :: pieces)).map fun n =>
        piece.length + placeholder.length + n

/- The first one follows the first piece. -/
theorem mem_places_cons
    (hMore : pieces ≠ [])
    (piece : String)
    (n : Nat) :
    n ∈ places (piece :: pieces) ↔
      n = piece.length ∨
        ∃ m ∈ places pieces,
          piece.length + placeholder.length + m = n := by
  obtain ⟨next, pieces, rfl⟩ :=
    List.exists_cons_of_ne_nil hMore
  rw [places, List.mem_cons, List.mem_map]

/- Those between pieces do not overlap. -/
theorem add_length_le_of_mem_places
    (hFirst : m ∈ places pieces)
    (hSecond : n ∈ places pieces)
    (hAfter : m < n) :
    m + placeholder.length ≤ n := by
  induction pieces generalizing m n with
  | nil => cases hFirst
  | cons piece pieces ih =>
      by_cases hMore : pieces = []
      · subst hMore
        cases hFirst
      · rw [mem_places_cons hMore] at hFirst hSecond
        rcases hSecond with rfl | ⟨k, hK, rfl⟩
        · rcases hFirst with rfl | ⟨j, _, rfl⟩ <;> omega
        · rcases hFirst with rfl | ⟨j, hJ, rfl⟩
          · exact Nat.le_add_right _ _
          · have hApart := ih hJ hK (by omega)
            omega

/- The text has a placeholder between pieces. -/
theorem SplitsInto.holdsAt_of_mem_places
    (hSplit : SplitsInto text pieces)
    (hMem : n ∈ places pieces) :
    HoldsAt text n := by
  induction hSplit generalizing n with
  | whole => cases hMem
  | cut hText _ hRest ih =>
      subst hText
      rw [mem_places_cons hRest.ne_nil] at hMem
      rcases hMem with rfl | ⟨k, hK, rfl⟩
      · exact holdsAt_length _ _
      · exact holdsAt_behind.mpr (ih hK)

/-
  A placeholder that none of those between pieces overlaps
  from the left is one of them: if it does not follow the
  first piece, it is behind the first placeholder.
-/
theorem SplitsInto.mem_places_of_apart
    (hSplit : SplitsInto text pieces)
    (hHolds : HoldsAt text n)
    (hApart :
      ∀ m ∈ places pieces,
        m < n → m + placeholder.length ≤ n) :
    n ∈ places pieces := by
  induction hSplit generalizing n with
  | whole hNone => exact absurd hHolds (hNone n)
  | @cut text piece rest pieces hText hFirst hRest ih =>
      have hCons := mem_places_cons hRest.ne_nil piece
      rw [hCons]
      by_cases hHead : n = piece.length
      · exact Or.inl hHead
      · have hNotBefore : ¬ n < piece.length :=
          fun hLt => hFirst n hLt hHolds
        have hBehind :=
          hApart piece.length ((hCons _).mpr (Or.inl rfl))
            (by omega)
        obtain ⟨k, rfl⟩ := Nat.exists_eq_add_of_le hBehind
        rw [hText, holdsAt_behind] at hHolds
        refine Or.inr ⟨k, ih hHolds ?_, rfl⟩
        intro j hJ hLt
        have hLater :=
          hApart _ ((hCons _).mpr (Or.inr ⟨j, hJ, rfl⟩))
            (by omega)
        omega

/-
  So the placeholders between pieces are those that none of
  them overlaps from the left.
-/
theorem SplitsInto.mem_places_iff
    (hSplit : SplitsInto text pieces)
    (n : Nat) :
    n ∈ places pieces ↔
      HoldsAt text n ∧
        ∀ m ∈ places pieces,
          m < n → m + placeholder.length ≤ n := by
  constructor
  · intro hMem
    exact
      ⟨hSplit.holdsAt_of_mem_places hMem,
        fun m hOther hLt =>
          add_length_le_of_mem_places hOther hMem hLt⟩
  · rintro ⟨hHolds, hApart⟩
    exact hSplit.mem_places_of_apart hHolds hApart

/-
  Of two placeholders that overlap exactly one is between
  pieces: the first, unless one before it overlaps that.
-/
theorem SplitsInto.mem_places_iff_not
    (hSplit : SplitsInto text pieces)
    (hFirst : HoldsAt text m)
    (hSecond : HoldsAt text n)
    (hAfter : m < n)
    (hOverlap : n < m + placeholder.length) :
    n ∈ places pieces ↔ m ∉ places pieces := by
  constructor
  · intro hMem hOther
    have hApart :=
      add_length_le_of_mem_places hOther hMem hAfter
    omega
  · intro hNot
    refine hSplit.mem_places_of_apart hSecond ?_
    intro l hMem hLt
    -- One that overlapped the second would share its first
    -- sign, as the first one does, and so be the first one.
    by_contra hShort
    have hHere := hSplit.holdsAt_of_mem_places hMem
    have hOne := hHere.succ_eq_of_overlap hSecond hLt (by omega)
    have hOther :=
      hFirst.succ_eq_of_overlap hSecond hAfter hOverlap
    have hSame : l = m := by omega
    exact hNot (hSame ▸ hMem)

end Template

------------------------------------------------------------
-- Names
------------------------------------------------------------

namespace Rule

variable {rule : Rule} {template : String}

/-
  How a rule fills a template, which its placeholders part
  into pieces.

  A placeholder is replaced exactly if no replaced one
  overlaps it from the left.  Two that overlap share one sign,
  and one of them is replaced: the first, unless that has lost
  its own first sign to one before it.  A name is the pieces
  with the current name between them, and it stands there
  whole: nothing in it, and nothing that it forms with its
  neighbours, is replaced again.  Such a name is what a row of
  a string table gets.
-/
structure FillsOnce
    (rule : Rule)
    (template : String)
    (pieces : List String) : Prop where
  splits : Template.SplitsInto template pieces
  unique :
    ∀ others,
      Template.SplitsInto template others → others = pieces
  joined : placeholder.intercalate pieces = template
  free :
    ∀ piece ∈ pieces, ∀ n, ¬ Template.HoldsAt piece n
  replaced :
    ∀ n,
      n ∈ Template.places pieces ↔
        Template.HoldsAt template n ∧
          ∀ m ∈ Template.places pieces,
            m < n → m + placeholder.length ≤ n
  overlapping :
    ∀ m n,
      Template.HoldsAt template m →
        Template.HoldsAt template n →
          m < n →
            n < m + placeholder.length →
              n + 1 = m + placeholder.length ∧
                (n ∈ Template.places pieces ↔
                  m ∉ Template.places pieces)
  named :
    ∀ current,
      rule.displayName current =
        some (current.intercalate pieces)
  whole :
    ∀ current before after,
      before ≠ [] →
        after ≠ [] →
          pieces = before ++ after →
            rule.displayName current =
              some (current.intercalate before ++ current ++
                current.intercalate after)
  written :
    ∀ members,
      rule.renameRow (.object members) =
        .object
          (Assoc.set "enUS"
            (.text
              ((((Value.object members).memberText?
                "enUS").getD "").intercalate pieces))
            members)

/- Every rule that renames by a template fills it once. -/
theorem fillsOnce_of_template
    (hVerb : rule.verb = .renameItem)
    (hTemplate : rule.rename = some template) :
    ∃ pieces, FillsOnce rule template pieces := by
  obtain ⟨pieces, hSplits⟩ :=
    Template.exists_splitsInto template
  have hNamed :
      ∀ current,
        rule.displayName current =
          some (current.intercalate pieces) := by
    intro current
    simp only [displayName, hVerb, hTemplate, Option.map_some,
      hSplits.fillTemplate_eq]
  have hChanges : rule.changesNames = true := by
    rw [← rule.isSome_displayName "", hNamed]
    rfl
  refine ⟨pieces, ?_⟩
  exact {
    splits := hSplits
    unique := fun others hOther => hSplits.unique hOther
    joined := hSplits.intercalate_eq
    free := hSplits.forall_not_holdsAt
    replaced := hSplits.mem_places_iff
    overlapping := by
      intro m n hFirst hSecond hAfter hOverlap
      exact
        ⟨hFirst.succ_eq_of_overlap hSecond hAfter hOverlap,
          hSplits.mem_places_iff_not hFirst hSecond hAfter
            hOverlap⟩
    named := hNamed
    whole := by
      intro current before after hBefore hAfter hPieces
      rw [hNamed, hPieces,
        String.intercalate_append_of_ne_nil hBefore hAfter]
    written := by
      intro members
      obtain ⟨name, hName, hRow⟩ :=
        renameRow_object hChanges members
      rw [hNamed, Option.some.injEq] at hName
      rw [hRow, hName] }

/- A template of four placeholders that share their signs. -/
def chainTemplate : String :=
  "$BaseType$BaseType$BaseType$BaseType$"

/- A rule that renames by this template. -/
def chainRule : Rule :=
  ⟨1, .renameItem, some (.ofList ["cap"]), some chainTemplate,
    []⟩

/-
  The first and the third are replaced.  With the last sign of
  the name the rest forms one more, which stays.
-/
theorem fillsOnce_of_template_chain :
    chainRule.verb = .renameItem ∧
      chainRule.rename = some chainTemplate ∧
      chainRule.displayName "El$" =
        some "El$BaseTypeEl$BaseType$" ∧
      ∃ pieces, FillsOnce chainRule chainTemplate pieces := by
  refine ⟨rfl, rfl, by decide +kernel, ?_⟩
  exact fillsOnce_of_template rfl rfl

end Rule

end LootFilter
