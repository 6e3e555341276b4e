import LootFilter.Proofs.DataFile

/-
  Documents without faults.

  A whole document is written by its tokens in the order of
  the text.  A text that is read as a whole document is cut
  into its tokens and nothing else, and tokens that write a
  document are read as it.  Whoever takes a document apart or
  passes over it finds that what it saw is whole.

  Main declarations:
    * `Json.Document.IsWhole`
    * `Json.Document.tokens`
    * `Json.Document.tokens_of_build`
    * `Json.Document.build_tokens`
    * `Json.Document.isWhole_of_skip`
    * `Json.Document.isWhole_of_record`
    * `Json.decode_eq_ok_iff_tokens`
-/

namespace LootFilter.Json

namespace Document

------------------------------------------------------------
-- Whole Documents and Their Tokens
------------------------------------------------------------

/- Whether a document has no fault anywhere. -/
inductive IsWhole : Document → Prop where
| null : IsWhole .null
| bool (b : Bool) : IsWhole (.bool b)
| number (n : Numeral) : IsWhole (.number n)
| text (l : Literal) : IsWhole (.text l)
| array {items : List Document}
    (hItems : ∀ d ∈ items, IsWhole d) :
    IsWhole (.array items none)
| object {members : List (Literal × Document)}
    (hMembers : ∀ m ∈ members, IsWhole m.2) :
    IsWhole (.object members none)

mutual

/- The tokens by which a document is written. -/
def tokens : Document → List Token
| .null => [.null]
| .bool b => [.bool b]
| .number n => [.number n]
| .text l => [.text l]
| .array items _ =>
    .openArray ::
      ([.comma].intercalate (itemTokens items) ++ [.closeArray])
| .object members _ =>
    .openObject ::
      ([.comma].intercalate (memberTokens members) ++
        [.closeObject])
| .broken _ _ => []

/- The tokens of each item. -/
def itemTokens : List Document → List (List Token)
| [] => []
| d :: ds => tokens d :: itemTokens ds

/- The tokens of each member: its name, a colon, its value. -/
def memberTokens :
    List (Literal × Document) → List (List Token)
| [] => []
| (name, d) :: ms =>
    (.text name :: .colon :: tokens d) :: memberTokens ms

end

/- Items are written one by one. -/
theorem itemTokens_append (ds es : List Document) :
    itemTokens (ds ++ es) = itemTokens ds ++ itemTokens es := by
  induction ds with
  | nil => rfl
  | cons d ds ih =>
      rw [List.cons_append, itemTokens, itemTokens, ih,
        List.cons_append]

/- And so are members. -/
theorem memberTokens_append
    (ms ns : List (Literal × Document)) :
    memberTokens (ms ++ ns) =
      memberTokens ms ++ memberTokens ns := by
  induction ms with
  | nil => rfl
  | cons m ms ih =>
      obtain ⟨name, d⟩ := m
      rw [List.cons_append, memberTokens, memberTokens, ih,
        List.cons_append]

/- The tokens of what is done, each part with a comma behind. -/
def followed (parts : List (List Token)) : List Token :=
  parts.flatMap fun part => part ++ [.comma]

/- Another part is put behind the comma of the last one. -/
theorem intercalate_concat
    (parts : List (List Token))
    (part : List Token) :
    [Token.comma].intercalate (parts ++ [part]) =
      followed parts ++ part := by
  induction parts with
  | nil => simp [followed]
  | cons first parts ih =>
      have hMore : parts ++ [part] ≠ [] := by simp
      rw [List.cons_append,
        List.intercalate_cons_of_ne_nil hMore, ih]
      simp [followed]

/- One more part that is done has a comma behind it. -/
theorem followed_concat
    (parts : List (List Token))
    (part : List Token) :
    followed (parts ++ [part]) =
      followed parts ++ part ++ [.comma] := by
  simp [followed]

------------------------------------------------------------
-- What Has Been Read
------------------------------------------------------------

/- The tokens that opened a frame. -/
def Frame.opened : Frame → List Token
| .items done =>
    .openArray :: followed (itemTokens done.reverse)
| .members done name =>
    .openObject ::
      (followed (memberTokens done.reverse) ++
        [.text name, .colon])

/- The tokens that opened all frames, the outermost first. -/
def opened : List Frame → List Token
| [] => []
| frame :: stack => opened stack ++ frame.opened

/- The tokens that were read inside the frames for a goal. -/
def Goal.read : Goal → List Token
| .value => []
| .firstItem => [.openArray]
| .firstName => [.openObject]
| .name done =>
    .openObject :: followed (memberTokens done.reverse)
| .colon done key =>
    .openObject ::
      (followed (memberTokens done.reverse) ++ [.text key])
| .after d => d.tokens

/- An array is closed behind its last item. -/
theorem tokens_close_items
    (done : List Document)
    (d : Document) :
    ((Frame.items done).close none d).tokens =
      (Frame.items done).opened ++ d.tokens ++ [.closeArray] := by
  rw [Frame.close, Frame.opened, tokens, List.reverse_cons,
    itemTokens_append, itemTokens, itemTokens,
    intercalate_concat]
  simp

/- An object is closed behind its last member. -/
theorem tokens_close_members
    (done : List (Literal × Document))
    (name : Literal)
    (d : Document) :
    ((Frame.members done name).close none d).tokens =
      (Frame.members done name).opened ++ d.tokens ++
        [.closeObject] := by
  rw [Frame.close, Frame.opened, tokens, List.reverse_cons,
    memberTokens_append, memberTokens, memberTokens,
    intercalate_concat]
  simp

/- A frame around a document that is not whole is not whole. -/
theorem not_isWhole_close
    {d : Document}
    (hBroken : ¬ d.IsWhole)
    (frame : Frame)
    (fault : Option Fault) :
    ¬ (frame.close fault d).IsWhole := by
  intro hWhole
  apply hBroken
  cases frame with
  | items done =>
      rw [Frame.close] at hWhole
      cases hWhole with
      | array hItems => exact hItems d (by simp)
  | members done name =>
      rw [Frame.close] at hWhole
      cases hWhole with
      | object hMembers => exact hMembers (name, d) (by simp)

/- Nor is what is around all frames. -/
theorem not_isWhole_unwind
    {d : Document}
    (hBroken : ¬ d.IsWhole)
    (stack : List Frame) :
    ¬ (unwind d stack).IsWhole := by
  induction stack generalizing d with
  | nil => exact hBroken
  | cons frame stack ih =>
      exact ih (not_isWhole_close hBroken frame none)

/- A frame with a fault is not whole. -/
theorem not_isWhole_close_some
    (frame : Frame)
    (e : Fault)
    (d : Document) :
    ¬ (frame.close (some e) d).IsWhole := by
  intro hWhole
  cases frame <;> cases hWhole

/- A scalar is written by its token. -/
theorem tokens_of_ofScalar?
    {t : Token}
    {d : Document}
    (hScalar : ofScalar? t = some d) :
    d.tokens = [t] := by
  unfold ofScalar? at hScalar
  split at hScalar <;> cases hScalar <;> rfl

/- A token that is no value is not whole. -/
theorem not_isWhole_ofSpoilt (t : Token) :
    ¬ (ofSpoilt t).IsWhole := by
  intro hWhole
  unfold ofSpoilt at hWhole
  split at hWhole <;> cases hWhole

/- No whole document is built around one that is not. -/
theorem not_isWhole_of_unwind
    {broken d : Document}
    {stack : List Frame}
    {rest : List Token}
    (hBuild : (unwind broken stack, ([] : List Token)) = (d, rest))
    (hBroken : ¬ broken.IsWhole) :
    ¬ d.IsWhole := by
  cases hBuild
  exact not_isWhole_unwind hBroken stack

/-
  A whole document is written by what was read before and what
  is read now, and what is left follows it.
-/
theorem tokens_of_build
    {g : Goal}
    {stack : List Frame}
    {ts rest : List Token}
    {d : Document}
    (hBuild : build g stack ts = (d, rest))
    (hWhole : d.IsWhole) :
    opened stack ++ g.read ++ ts = d.tokens ++ rest := by
  fun_induction build g stack ts with
  | case1 inner ts =>
      cases hBuild
      rfl
  | case2 inner stack done ts ih =>
      rw [← ih hBuild]
      simp [opened, Frame.opened, Goal.read, itemTokens_append,
        itemTokens, followed_concat]
  | case3 inner stack done ts ih =>
      rw [← ih hBuild, Goal.read, Goal.read, tokens_close_items]
      simp [opened]
  | case4 inner stack done name ts ih =>
      rw [← ih hBuild]
      simp [opened, Frame.opened, Goal.read, memberTokens_append,
        memberTokens, followed_concat]
  | case5 inner stack done name ts ih =>
      rw [← ih hBuild, Goal.read, Goal.read,
        tokens_close_members]
      simp [opened]
  | case6 inner frame stack ts =>
      have hFault := not_isWhole_close_some frame (due ts) inner
      exact absurd hWhole (not_isWhole_of_unwind hBuild hFault)
  | case7 stack ts ih =>
      rw [← ih hBuild]
      simp [Goal.read]
  | case8 stack ts ih =>
      rw [← ih hBuild]
      simp [Goal.read]
  | case9 stack t ts _ _ inner hScalar ih =>
      rw [← ih hBuild, Goal.read, Goal.read,
        tokens_of_ofScalar? hScalar]
      simp
  | case10 stack t ts =>
      have hSpoilt := not_isWhole_ofSpoilt t
      exact absurd hWhole (not_isWhole_of_unwind hBuild hSpoilt)
  | case11 stack =>
      exact absurd hWhole (not_isWhole_of_unwind hBuild nofun)
  | case12 stack ts ih =>
      rw [← ih hBuild]
      simp [Goal.read, tokens, itemTokens]
  | case13 stack ts ih =>
      rw [← ih hBuild]
      simp [opened, Frame.opened, Goal.read, itemTokens, followed]
  | case14 stack ts ih =>
      rw [← ih hBuild]
      simp [opened, Frame.opened, Goal.read, itemTokens, followed]
  | case15 stack t ts _ _ _ inner hScalar ih =>
      rw [← ih hBuild, Goal.read, Goal.read,
        tokens_of_ofScalar? hScalar]
      simp [opened, Frame.opened, itemTokens, followed]
  | case16 stack t ts =>
      have hSpoilt := not_isWhole_ofSpoilt t
      exact absurd hWhole (not_isWhole_of_unwind hBuild hSpoilt)
  | case17 stack =>
      exact absurd hWhole (not_isWhole_of_unwind hBuild nofun)
  | case18 stack ts ih =>
      rw [← ih hBuild]
      simp [Goal.read, tokens, memberTokens]
  | case19 stack name ts ih =>
      rw [← ih hBuild]
      simp [Goal.read, memberTokens, followed]
  | case20 stack ts =>
      exact absurd hWhole (not_isWhole_of_unwind hBuild nofun)
  | case21 done stack name ts ih =>
      rw [← ih hBuild]
      simp [Goal.read]
  | case22 done stack ts =>
      exact absurd hWhole (not_isWhole_of_unwind hBuild nofun)
  | case23 done name stack ts ih =>
      rw [← ih hBuild]
      simp [opened, Frame.opened, Goal.read]
  | case24 done name stack ts =>
      exact absurd hWhole (not_isWhole_of_unwind hBuild nofun)

------------------------------------------------------------
-- What Is Written Is Read
------------------------------------------------------------

/- Whether the tokens of a document are read as it. -/
def IsBuilt (d : Document) : Prop :=
  ∀ stack rest,
    build .value stack (d.tokens ++ rest) =
      build (.after d) stack rest

/- The tokens of further parts, each with a comma in front. -/
def further (parts : List (List Token)) : List Token :=
  parts.flatMap fun part => .comma :: part

/- The first part has no comma in front. -/
theorem intercalate_cons
    (part : List Token)
    (parts : List (List Token)) :
    [Token.comma].intercalate (part :: parts) =
      part ++ further parts := by
  induction parts generalizing part with
  | nil => simp [further]
  | cons next parts ih =>
      rw [List.intercalate_cons_of_ne_nil (List.cons_ne_nil _ _),
        ih]
      simp [further]

/- Behind an item, the further ones are read in order. -/
theorem build_further_items
    {ds : List Document}
    (hItems : ∀ e ∈ ds, e.IsBuilt)
    (done : List Document)
    (d : Document)
    (stack : List Frame)
    (rest : List Token) :
    build (.after d) (.items done :: stack)
        (further (itemTokens ds) ++ .closeArray :: rest) =
      build (.after (.array (done.reverse ++ d :: ds) none))
        stack rest := by
  induction ds generalizing done d with
  | nil => simp [further, itemTokens, build, Frame.close]
  | cons e ds ih =>
      rw [List.forall_mem_cons] at hItems
      have hCut :
          further (itemTokens (e :: ds)) ++ .closeArray :: rest =
            .comma ::
              (e.tokens ++
                (further (itemTokens ds) ++
                  .closeArray :: rest)) := by
        simp [further, itemTokens]
      rw [hCut, build, hItems.1, ih hItems.2]
      simp

/- And so are the further members behind a member. -/
theorem build_further_members
    {ms : List (Literal × Document)}
    (hMembers : ∀ m ∈ ms, m.2.IsBuilt)
    (done : List (Literal × Document))
    (name : Literal)
    (d : Document)
    (stack : List Frame)
    (rest : List Token) :
    build (.after d) (.members done name :: stack)
        (further (memberTokens ms) ++ .closeObject :: rest) =
      build
        (.after
          (.object (done.reverse ++ (name, d) :: ms) none))
        stack rest := by
  induction ms generalizing done name d with
  | nil => simp [further, memberTokens, build, Frame.close]
  | cons m ms ih =>
      obtain ⟨next, e⟩ := m
      rw [List.forall_mem_cons] at hMembers
      have hCut :
          further (memberTokens ((next, e) :: ms)) ++
              .closeObject :: rest =
            .comma :: .text next :: .colon ::
              (e.tokens ++
                (further (memberTokens ms) ++
                  .closeObject :: rest)) := by
        simp [further, memberTokens]
      rw [hCut, build, build, build, hMembers.1, ih hMembers.2]
      simp

/- The first item of an array is read like any value. -/
theorem build_first_item
    {d : Document}
    (hWhole : d.IsWhole)
    (stack : List Frame)
    (rest : List Token) :
    build .firstItem stack (d.tokens ++ rest) =
      build .value (.items [] :: stack) (d.tokens ++ rest) := by
  cases hWhole with
  | null => rfl
  | bool b => rfl
  | number n => rfl
  | text l => rfl
  | array hItems =>
      rw [tokens, List.cons_append]
      rfl
  | object hMembers =>
      rw [tokens, List.cons_append]
      rfl

/- A whole document is read where it is written. -/
theorem build_tokens
    {d : Document}
    (hWhole : d.IsWhole) :
    d.IsBuilt := by
  induction hWhole with
  | null => exact fun _ _ => rfl
  | bool b => exact fun _ _ => rfl
  | number n => exact fun _ _ => rfl
  | text l => exact fun _ _ => rfl
  | @array items hItems ih =>
      intro stack rest
      cases items with
      | nil => rfl
      | cons e es =>
          rw [List.forall_mem_cons] at hItems ih
          have hCut :
              (array (e :: es) none).tokens ++ rest =
                .openArray ::
                  (e.tokens ++
                    (further (itemTokens es) ++
                      .closeArray :: rest)) := by
            simp [tokens, itemTokens, intercalate_cons]
          rw [hCut, build, build_first_item hItems.1, ih.1,
            build_further_items ih.2]
          rfl
  | @object members hMembers ih =>
      intro stack rest
      cases members with
      | nil => rfl
      | cons m ms =>
          obtain ⟨name, e⟩ := m
          rw [List.forall_mem_cons] at ih
          have hCut :
              (object ((name, e) :: ms) none).tokens ++ rest =
                .openObject :: .text name :: .colon ::
                  (e.tokens ++
                    (further (memberTokens ms) ++
                      .closeObject :: rest)) := by
            simp [tokens, memberTokens, intercalate_cons]
          rw [hCut, build, build, build, ih.1,
            build_further_members ih.2]
          rfl

/- So tokens write one whole document only. -/
theorem ofTokens_tokens
    {d : Document}
    (hWhole : d.IsWhole) :
    ofTokens d.tokens = (d, []) := by
  have hBuilt := build_tokens hWhole [] []
  rw [List.append_nil] at hBuilt
  exact hBuilt

------------------------------------------------------------
-- What Readers Have Seen
------------------------------------------------------------

mutual

/- What is passed over is whole. -/
theorem isWhole_of_skip :
    (d : Document) → d.skip = .ok () → d.IsWhole
| .null, _ => IsWhole.null
| .bool b, _ => IsWhole.bool b
| .number n, _ => IsWhole.number n
| .text l, _ => IsWhole.text l
| .array items fault, hSkip => by
    rw [skip] at hSkip
    rcases bind_eq_ok_iff.mp hSkip with ⟨_, hItems, hFault⟩
    cases fault with
    | none => exact IsWhole.array (isWhole_of_skipItems items hItems)
    | some e => cases hFault
| .object members fault, hSkip => by
    rw [skip] at hSkip
    rcases bind_eq_ok_iff.mp hSkip with ⟨_, hMembers, hFault⟩
    cases fault with
    | none =>
        exact IsWhole.object (isWhole_of_skipMembers members hMembers)
    | some e => cases hFault
| .broken _ _, hSkip => by
    rw [skip] at hSkip
    cases hSkip

/- So are all items that are passed over. -/
theorem isWhole_of_skipItems :
    (ds : List Document) →
      skipItems ds = .ok () → ∀ d ∈ ds, d.IsWhole
| [], _ => List.forall_mem_nil _
| d :: ds, hSkip => by
    rw [skipItems] at hSkip
    rcases bind_eq_ok_iff.mp hSkip with ⟨_, hFirst, hRest⟩
    exact
      List.forall_mem_cons.mpr
        ⟨isWhole_of_skip d hFirst, isWhole_of_skipItems ds hRest⟩

/- And all members. -/
theorem isWhole_of_skipMembers :
    (ms : List (Literal × Document)) →
      skipMembers ms = .ok () → ∀ m ∈ ms, m.2.IsWhole
| [], _ => List.forall_mem_nil _
| (name, d) :: ms, hSkip => by
    rw [skipMembers] at hSkip
    rcases bind_eq_ok_iff.mp hSkip with ⟨_, _, hSkip⟩
    rcases bind_eq_ok_iff.mp hSkip with ⟨_, hFirst, hRest⟩
    exact
      List.forall_mem_cons.mpr
        ⟨isWhole_of_skip d hFirst,
          isWhole_of_skipMembers ms hRest⟩

end

/- What is read as a text is whole. -/
theorem isWhole_of_asText
    {d : Document}
    {s : String}
    (hText : d.asText = .ok s) :
    d.IsWhole := by
  unfold asText at hText
  split at hText
  · rename_i l
    exact IsWhole.text l
  · cases hText

/- Among members, fields are texts and the rest is passed over. -/
theorem isWhole_of_namedFields
    {fields : List String}
    {found result : List (String × String)}
    {members : List (Literal × Document)}
    (hFields : namedFields fields found members = .ok result) :
    ∀ m ∈ members, m.2.IsWhole := by
  induction members generalizing found with
  | nil => exact List.forall_mem_nil _
  | cons member members ih =>
      obtain ⟨name, d⟩ := member
      rw [namedFields] at hFields
      rcases bind_eq_ok_iff.mp hFields with ⟨key, _, hFields⟩
      rw [List.forall_mem_cons]
      split at hFields
      · split at hFields
        · cases hFields
        · rcases bind_eq_ok_iff.mp hFields with
            ⟨s, hText, hRest⟩
          exact ⟨isWhole_of_asText hText, ih hRest⟩
      · rcases bind_eq_ok_iff.mp hFields with
          ⟨_, hSkip, hRest⟩
        exact ⟨isWhole_of_skip d hSkip, ih hRest⟩

/- Items are fields by position. -/
theorem isWhole_of_listedFields
    {fields : List String}
    {result : List (String × String)}
    {items : List Document}
    (hFields : listedFields fields items = .ok result) :
    ∀ d ∈ items, d.IsWhole := by
  induction items generalizing fields result with
  | nil => exact List.forall_mem_nil _
  | cons d items ih =>
      cases fields with
      | nil => cases hFields
      | cons field fields =>
          rw [listedFields] at hFields
          rcases bind_eq_ok_iff.mp hFields with
            ⟨s, hText, hFields⟩
          rcases bind_eq_ok_iff.mp hFields with
            ⟨rest, hRest, _⟩
          exact
            List.forall_mem_cons.mpr
              ⟨isWhole_of_asText hText, ih hRest⟩

/- What is read as a record is whole. -/
theorem isWhole_of_record
    {fields : List String}
    {result : List (String × String)}
    {d : Document}
    (hRecord : d.record fields = .ok result) :
    d.IsWhole := by
  unfold record at hRecord
  split at hRecord
  · rename_i members fault
    rcases bind_eq_ok_iff.mp hRecord with ⟨_, hFields, hRecord⟩
    rcases bind_eq_ok_iff.mp hRecord with ⟨_, hFault, _⟩
    cases fault with
    | none => exact IsWhole.object (isWhole_of_namedFields hFields)
    | some e => cases hFault
  · rename_i items fault
    rcases bind_eq_ok_iff.mp hRecord with ⟨_, hFields, hRecord⟩
    rcases bind_eq_ok_iff.mp hRecord with ⟨_, hFault, _⟩
    cases fault with
    | none => exact IsWhole.array (isWhole_of_listedFields hFields)
    | some e => cases hFault
  · cases hRecord

end Document

------------------------------------------------------------
-- Texts
------------------------------------------------------------

/-
  With a reader of whole documents, a text is read exactly if
  it is cut into the tokens of one, with nothing before or
  behind them.
-/
theorem decode_eq_ok_iff_tokens
    {α : Type}
    {read : Document → Except Fault α}
    (hRead : ∀ d a, read d = .ok a → d.IsWhole)
    {s : String}
    {a : α} :
    decode read s = .ok a ↔
      ∃ d, Token.lex s.toList = d.tokens ∧ read d = .ok a := by
  rw [decode_eq_ok_iff]
  constructor
  · rintro ⟨hOk, hRest⟩
    have hBuild :
        Document.build .value [] (Token.lex s.toList) =
          ((Document.ofTokens (Token.lex s.toList)).1,
            (Document.ofTokens (Token.lex s.toList)).2) :=
      rfl
    have hTokens :=
      Document.tokens_of_build hBuild (hRead _ a hOk)
    rw [hRest] at hTokens
    refine ⟨_, ?_, hOk⟩
    simpa [Document.opened, Document.Goal.read] using hTokens
  · rintro ⟨d, hTokens, hOk⟩
    rw [hTokens, Document.ofTokens_tokens (hRead d a hOk)]
    exact ⟨hOk, rfl⟩

end LootFilter.Json
