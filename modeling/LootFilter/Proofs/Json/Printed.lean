import LootFilter.Proofs.Json.Scalars
import LootFilter.Proofs.Json.Within

/-
  A printed value is read as itself.

  Reading a printed value inside some open arrays and objects
  goes on behind it with a document of that value, whatever
  the indentation and whatever follows.  So the items of an
  array and the members of an object are read one by one.

  Main declarations:
    * `Json.Document.ReadsBack`
    * `Json.Document.build_printItems`
    * `Json.Document.build_printMembers`
    * `Json.Document.exists_readsBack`
    * `Json.decode_print`
-/

namespace LootFilter.Json

open Numeral (EndsNumeral)

variable {rest : List Char}

------------------------------------------------------------
-- Tokens
------------------------------------------------------------

namespace Token

/- White space holds no token. -/
theorem lex_space
    {c : Char}
    (hSpace : isSpace c = true)
    (rest : List Char) :
    lex (c :: rest) = lex rest := by
  rw [lex.eq_def]
  simp [hSpace]

/- Neither does a new line with its indentation. -/
@[simp] theorem lex_newLine
    (depth : Nat)
    (rest : List Char) :
    lex (newLine depth ++ rest) = lex rest := by
  have hBlanks :
      ∀ count : Nat,
        lex (List.replicate count ' ' ++ rest) = lex rest := by
    intro count
    induction count with
    | zero => rfl
    | succ count ih =>
        rw [List.replicate_succ, List.cons_append,
          lex_space rfl, ih]
  rw [newLine, List.cons_append, lex_space rfl, hBlanks]

/- A mark is a token by itself. -/
theorem lex_mark
    {c : Char}
    {t : Token}
    (hMark : mark? c = some t)
    (hSpace : isSpace c = false)
    (rest : List Char) :
    lex (c :: rest) = t :: lex rest := by
  rw [lex.eq_def]
  simp [hSpace, hMark]

/- A word is a token by itself. -/
theorem lex_word
    {c : Char}
    {ws : List Char}
    {t : Token}
    (hWord : word? c = some (ws, t))
    (hSpace : isSpace c = false)
    (hMark : mark? c = none)
    (rest : List Char) :
    lex (c :: (ws ++ rest)) = t :: lex rest := by
  have hScan :
      ∀ ws : List Char, scanWord ws (ws ++ rest) = .ok rest := by
    intro ws
    induction ws with
    | nil => rfl
    | cons w ws ih => simpa [scanWord] using ih
  rw [lex.eq_def]
  simp only [hSpace, hMark, hWord, Bool.false_eq_true, if_false]
  split
  · rename_i hError
    rw [hScan] at hError
    cases hError
  · rename_i hFound
    rw [hScan] at hFound
    cases hFound
    rfl

/- A printed text is one token. -/
@[simp] theorem lex_escape (s : String) (rest : List Char) :
    lex (escape s ++ rest) =
      .text (Literal.ofPrinted s) :: lex rest := by
  have hScan :=
    Literal.scan_flatMap_escapeChar s.toList rest
  have hText :
      escape s ++ rest =
        '"' :: (s.toList.flatMap escapeChar ++ '"' :: rest) := by
    simp [escape]
  rw [hText, lex.eq_def]
  simp [isSpace, mark?, word?, hScan, Literal.ofPrinted]

/- What a numeral starts with starts no other token. -/
theorem other_of_startsNumeral
    {c : Char}
    (hStart : c = '-' ∨ c.isDigit = true) :
    isSpace c = false ∧ mark? c = none ∧ word? c = none ∧
      c ≠ '"' := by
  have hNe :
      ∀ other : Char,
        other ≠ '-' → other.isDigit = false → c ≠ other := by
    rintro other hMinus hDigit rfl
    rcases hStart with rfl | hStart
    · exact hMinus rfl
    · rw [hDigit] at hStart
      cases hStart
  refine ⟨?_, ?_, ?_, hNe '"' (by decide) rfl⟩
  · simp [isSpace, hNe ' ' (by decide) rfl,
      hNe '\n' (by decide) rfl, hNe '\t' (by decide) rfl,
      hNe '\r' (by decide) rfl]
  · simp [mark?, hNe '[' (by decide) rfl,
      hNe ']' (by decide) rfl, hNe '{' (by decide) rfl,
      hNe '}' (by decide) rfl, hNe ',' (by decide) rfl,
      hNe ':' (by decide) rfl]
  · simp [word?, hNe 'n' (by decide) rfl,
      hNe 't' (by decide) rfl, hNe 'f' (by decide) rfl]

/- A printed integer is one token. -/
theorem lex_print
    (n : Int)
    (hRest : EndsNumeral rest) :
    lex ((Number.int n).print ++ rest) =
      .number (Numeral.ofInt n) :: lex rest := by
  have hScan := Numeral.scan_print n hRest
  rcases Numeral.exists_head_print n with
    ⟨c, cs, hPrint, hStart⟩
  rcases other_of_startsNumeral hStart with
    ⟨hSpace, hMark, hWord, hQuote⟩
  rw [hPrint, List.cons_append] at hScan ⊢
  rw [lex.eq_def]
  simp only [hSpace, hMark, hWord, hQuote, hStart,
    Bool.false_eq_true, if_false, if_true]
  split
  · rename_i hError
    rw [hScan] at hError
    cases hError
  · rename_i hFound
    rw [hScan] at hFound
    cases hFound
    rfl

end Token

------------------------------------------------------------
-- What Follows a Value
------------------------------------------------------------

/- A numeral does not go on behind the last item. -/
theorem endsNumeral_newLine (depth : Nat) (rest : List Char) :
    EndsNumeral (newLine depth ++ rest) := by
  intro c hHead
  cases hHead
  decide

/- Nor does it go on behind any other. -/
theorem endsNumeral_printItems
    (depth : Nat)
    (vs : List Value)
    (hRest : EndsNumeral rest) :
    EndsNumeral (Value.printItems depth vs ++ rest) := by
  cases vs with
  | nil => exact hRest
  | cons v vs =>
      intro c hHead
      cases hHead
      decide

/- The same holds of members. -/
theorem endsNumeral_printMembers
    (depth : Nat)
    (ms : Assoc String Value)
    (hRest : EndsNumeral rest) :
    EndsNumeral (Value.printMembers depth ms ++ rest) := by
  cases ms with
  | nil => exact hRest
  | cons m ms =>
      intro c hHead
      cases hHead
      decide

namespace Document

open Token (lex)

variable {depth indent : Nat} {v : Value} {d : Document}

------------------------------------------------------------
-- Documents of Printed Values
------------------------------------------------------------

/-
  Whether a printed value is read as a document that has the
  value.  Where an array was just opened, it is the first item.
-/
structure ReadsBack
    (depth : Nat)
    (v : Value)
    (d : Document) : Prop where
  value : valueWithin depth d = .ok v
  built :
    ∀ indent stack rest,
      EndsNumeral rest →
        build .value stack (lex (v.printAt indent ++ rest)) =
          build (.after d) stack (lex rest)
  first :
    ∀ indent stack rest,
      EndsNumeral rest →
        build .firstItem stack
            (lex (v.printAt indent ++ rest)) =
          build .value (.items [] :: stack)
            (lex (v.printAt indent ++ rest))

/- A value of one token is read back if the token is. -/
theorem readsBack_of_scalar
    {t : Token}
    (hValue : valueWithin depth d = .ok v)
    (hScalar : ofScalar? t = some d)
    (hLex :
      ∀ indent rest,
        EndsNumeral rest →
          lex (v.printAt indent ++ rest) = t :: lex rest) :
    ReadsBack depth v d where
  value := hValue
  built indent stack rest hRest := by
    rw [hLex indent rest hRest]
    cases t <;> cases hScalar <;> rfl
  first indent stack rest hRest := by
    rw [hLex indent rest hRest]
    cases t <;> cases hScalar <;> rfl

/- The further items of an array are read back in order. -/
theorem build_printItems
    {vs : List Value}
    {ds : List Document}
    (hItems : List.Forall₂ (ReadsBack depth) vs ds)
    (indent outer : Nat)
    (done : List Document)
    (d : Document)
    (stack : List Frame)
    (rest : List Char) :
    build (.after d) (.items done :: stack)
        (lex
          (Value.printItems indent vs ++
            (newLine outer ++ ']' :: rest))) =
      build (.after (.array (done.reverse ++ d :: ds) none))
        stack (lex rest) := by
  induction hItems generalizing done d with
  | nil =>
      rw [Value.printItems, List.nil_append, Token.lex_newLine,
        Token.lex_mark (t := .closeArray) rfl rfl]
      simp [build, Frame.close]
  | @cons v e vs ds hFirst _ ih =>
      rw [Value.printItems]
      simp only [List.append_assoc, List.cons_append,
        List.nil_append]
      rw [Token.lex_mark (t := .comma) rfl rfl,
        Token.lex_newLine, build,
        hFirst.built _ _ _
          (endsNumeral_printItems indent vs
            (endsNumeral_newLine outer _)),
        ih]
      simp

/- Whether a printed member is read back, name and value. -/
def MemberReadsBack
    (depth : Nat)
    (m : String × Value)
    (e : Literal × Document) : Prop :=
  e.1 = Literal.ofPrinted m.1 ∧ ReadsBack depth m.2 e.2

/- The further members of an object are, too. -/
theorem build_printMembers
    {ms : Assoc String Value}
    {es : List (Literal × Document)}
    (hMembers : List.Forall₂ (MemberReadsBack depth) ms es)
    (indent outer : Nat)
    (done : List (Literal × Document))
    (name : Literal)
    (d : Document)
    (stack : List Frame)
    (rest : List Char) :
    build (.after d) (.members done name :: stack)
        (lex
          (Value.printMembers indent ms ++
            (newLine outer ++ '}' :: rest))) =
      build
        (.after
          (.object (done.reverse ++ (name, d) :: es) none))
        stack (lex rest) := by
  induction hMembers generalizing done name d with
  | nil =>
      rw [Value.printMembers, List.nil_append,
        Token.lex_newLine,
        Token.lex_mark (t := .closeObject) rfl rfl]
      simp [build, Frame.close]
  | @cons m e ms es hFirst _ ih =>
      obtain ⟨key, v⟩ := m
      obtain ⟨l, item⟩ := e
      obtain ⟨rfl, hItem⟩ := hFirst
      rw [Value.printMembers]
      simp only [List.append_assoc, List.cons_append,
        List.nil_append]
      rw [Token.lex_mark (t := .comma) rfl rfl,
        Token.lex_newLine, Token.lex_escape,
        Token.lex_mark (t := .colon) rfl rfl,
        Token.lex_space rfl, build, build, build,
        hItem.built _ _ _
          (endsNumeral_printMembers indent ms
            (endsNumeral_newLine outer _)),
        ih]
      simp

/- Members with new and distinct names have their values. -/
theorem membersWithin_of_forall₂
    {ms done : Assoc String Value}
    {es : List (Literal × Document)}
    (hMembers : List.Forall₂ (MemberReadsBack depth) ms es)
    (hKeys : (Assoc.keys (done ++ ms)).Nodup) :
    membersWithin depth done es = .ok (done ++ ms) := by
  induction hMembers generalizing done with
  | nil => rw [membersWithin, List.append_nil]
  | @cons m e ms es hFirst _ ih =>
      obtain ⟨key, v⟩ := m
      obtain ⟨l, item⟩ := e
      obtain ⟨rfl, hItem⟩ := hFirst
      have hBehind :
          done ++ (key, v) :: ms = (done ++ [(key, v)]) ++ ms := by
        simp
      have hNew : key ∉ Assoc.keys done := by
        intro hMem
        rw [Assoc.keys, List.map_append, List.nodup_append]
          at hKeys
        exact hKeys.2.2 key hMem key (by simp) rfl
      rw [membersWithin, Literal.text_ofPrinted]
      simp only [hItem.value, bind, Except.bind,
        Assoc.set_of_notMem hNew]
      rw [hBehind] at hKeys ⊢
      exact ih hKeys

/- An array is read back if its items are. -/
theorem readsBack_array
    {vs : List Value}
    {ds : List Document}
    (hItems : List.Forall₂ (ReadsBack depth) vs ds) :
    ReadsBack (depth + 1) (.array vs) (.array ds none) where
  value := by
    have hValues :=
      itemsWithin_eq_ok_iff.mpr
        (hItems.flip.imp fun d v hItem => hItem.value)
    exact
      valueWithin_array_eq_ok_iff.mpr
        ⟨depth, vs, rfl, rfl, hValues, rfl⟩
  built indent stack rest _ := by
    cases hItems with
    | nil =>
        rw [Value.printAt, List.cons_append,
          Token.lex_mark (t := .openArray) rfl rfl,
          List.cons_append,
          Token.lex_mark (t := .closeArray) rfl rfl]
        rfl
    | @cons v d vs ds hFirst hRest =>
        rw [Value.printAt]
        simp only [List.append_assoc, List.cons_append,
          List.nil_append]
        rw [Token.lex_mark (t := .openArray) rfl rfl,
          Token.lex_newLine, build]
        have hEnd :=
          endsNumeral_printItems (indent + 1) vs
            (endsNumeral_newLine indent (']' :: rest))
        rw [hFirst.first _ _ _ hEnd, hFirst.built _ _ _ hEnd,
          build_printItems hRest]
        rfl
  first indent stack rest _ := by
    have hOpen :
        ∃ more, (Value.array vs).printAt indent = '[' :: more := by
      cases vs <;> simp [Value.printAt]
    rcases hOpen with ⟨more, hOpen⟩
    rw [hOpen, List.cons_append,
      Token.lex_mark (t := .openArray) rfl rfl]
    rfl

/- An object is read back if its members are. -/
theorem readsBack_object
    {ms : Assoc String Value}
    {es : List (Literal × Document)}
    (hMembers : List.Forall₂ (MemberReadsBack depth) ms es)
    (hKeys : (Assoc.keys ms).Nodup) :
    ReadsBack (depth + 1) (.object ms) (.object es none) where
  value := by
    have hValues :
        membersWithin depth [] es = .ok ([] ++ ms) :=
      membersWithin_of_forall₂ hMembers hKeys
    rw [List.nil_append] at hValues
    exact
      valueWithin_object_eq_ok_iff.mpr
        ⟨depth, ms, rfl, rfl, hValues, rfl⟩
  built indent stack rest _ := by
    cases hMembers with
    | nil =>
        rw [Value.printAt, List.cons_append,
          Token.lex_mark (t := .openObject) rfl rfl,
          List.cons_append,
          Token.lex_mark (t := .closeObject) rfl rfl]
        rfl
    | @cons m e ms es hFirst hRest =>
        obtain ⟨key, v⟩ := m
        obtain ⟨l, d⟩ := e
        obtain ⟨rfl, hItem⟩ := hFirst
        rw [Value.printAt]
        simp only [List.append_assoc, List.cons_append,
          List.nil_append]
        rw [Token.lex_mark (t := .openObject) rfl rfl,
          Token.lex_newLine, Token.lex_escape,
          Token.lex_mark (t := .colon) rfl rfl,
          Token.lex_space rfl, build, build, build,
          hItem.built _ _ _
            (endsNumeral_printMembers (indent + 1) ms
              (endsNumeral_newLine indent ('}' :: rest))),
          build_printMembers hRest]
        rfl
  first indent stack rest _ := by
    have hOpen :
        ∃ more,
          (Value.object ms).printAt indent = '{' :: more := by
      cases ms <;> simp [Value.printAt]
    rcases hOpen with ⟨more, hOpen⟩
    rw [hOpen, List.cons_append,
      Token.lex_mark (t := .openObject) rfl rfl]
    rfl

/-
  Whatever values documents have, these are read back if their
  numbers are integers.
-/
theorem exists_readsBack
    (hWithin : v.Within depth)
    (hWhole : ∀ n ∈ v.numbers, n.IsWhole) :
    ∃ d, ReadsBack depth v d := by
  induction hWithin with
  | null =>
      refine ⟨.null, readsBack_of_scalar rfl
        (t := .null) rfl ?_⟩
      intro indent rest _
      exact Token.lex_word rfl rfl rfl rest
  | bool b =>
      refine ⟨.bool b, readsBack_of_scalar rfl
        (t := .bool b) rfl ?_⟩
      intro indent rest _
      cases b <;> exact Token.lex_word rfl rfl rfl rest
  | @number depth n hFits =>
      cases n with
      | double negative magnitude =>
          have hNone : False :=
            hWhole (.double negative magnitude)
              (by simp [Value.numbers])
          exact hNone.elim
      | int n =>
          have hNumber :
              (Numeral.ofInt n).number? = some (.int n) :=
            Numeral.number?_ofInt hFits.1 hFits.2
          refine ⟨.number (Numeral.ofInt n),
            readsBack_of_scalar ?_
              (t := .number (Numeral.ofInt n)) rfl ?_⟩
          · rw [valueWithin, hNumber]
          · intro indent rest hRest
            exact Token.lex_print n hRest
  | text s =>
      refine ⟨.text (Literal.ofPrinted s),
        readsBack_of_scalar ?_
          (t := .text (Literal.ofPrinted s)) rfl ?_⟩
      · rw [valueWithin, Literal.text_ofPrinted]
        rfl
      · intro indent rest _
        exact Token.lex_escape s rest
  | @array depth vs hItems ih =>
      have hEach :
          ∀ v ∈ vs, ∃ d, ReadsBack depth v d := by
        intro v hMem
        apply ih v hMem
        intro n hNumber
        exact
          hWhole n
            (Value.mem_numbers_array_iff.mpr ⟨v, hMem, hNumber⟩)
      rcases exists_forall₂_iff.mpr hEach with ⟨ds, hAll⟩
      exact ⟨_, readsBack_array hAll⟩
  | @object depth ms hKeys hMembers ih =>
      have hEach :
          ∀ m ∈ ms, ∃ e, MemberReadsBack depth m e := by
        intro m hMem
        have hNumbers : ∀ n ∈ m.2.numbers, n.IsWhole := by
          intro n hNumber
          exact
            hWhole n
              (Value.mem_numbers_object_iff.mpr
                ⟨m, hMem, hNumber⟩)
        rcases ih m hMem hNumbers with ⟨d, hItem⟩
        exact ⟨(Literal.ofPrinted m.1, d), rfl, hItem⟩
      rcases exists_forall₂_iff.mpr hEach with ⟨es, hAll⟩
      exact ⟨_, readsBack_object hAll hKeys⟩

/- Only an array without a fault has an array for a value. -/
theorem exists_array_of_valueWithin
    {vs : List Value}
    (hValue : valueWithin depth d = .ok (.array vs)) :
    ∃ ds below,
      d = .array ds none ∧ depth = below + 1 ∧
        itemsWithin below ds = .ok vs := by
  cases d with
  | array ds fault =>
      rcases valueWithin_array_eq_ok_iff.mp hValue with
        ⟨below, found, hDepth, rfl, hItems, hDone⟩
      cases hDone
      exact ⟨ds, below, rfl, hDepth, hItems⟩
  | object es fault =>
      rcases valueWithin_object_eq_ok_iff.mp hValue with
        ⟨_, _, _, _, _, hDone⟩
      cases hDone
  | text l =>
      rcases valueWithin_text_eq_ok_iff.mp hValue with
        ⟨_, _, hDone⟩
      cases hDone
  | number n =>
      rcases valueWithin_number_eq_ok_iff.mp hValue with
        ⟨_, _, hDone⟩
      cases hDone
  | _ => cases hValue

/- An array that has a value has values. -/
theorem values_of_value
    {vs : List Value}
    (hValue : d.value = .ok (.array vs)) :
    d.values = .ok vs := by
  rcases exists_array_of_valueWithin hValue with
    ⟨ds, below, rfl, hDepth, hItems⟩
  cases hDepth
  rw [values, maxDepth, hItems]
  rfl

end Document

------------------------------------------------------------
-- Whole Texts
------------------------------------------------------------

/- A printed value is read as itself. -/
theorem decode_print
    {v : Value}
    (hWithin : v.Within Document.maxDepth)
    (hWhole : ∀ n ∈ v.numbers, n.IsWhole) :
    decode Document.value v.print = .ok v := by
  rcases Document.exists_readsBack hWithin hWhole with
    ⟨d, hBack⟩
  have hBuild := hBack.built 0 [] [] nofun
  have hTokens :
      Document.ofTokens (Token.lex v.print.toList) = (d, []) := by
    rw [Value.print, String.toList_ofList,
      ← List.append_nil (Value.printAt 0 v),
      Document.ofTokens, hBuild, Token.lex.eq_def]
    rfl
  rw [decode_eq_ok_iff, hTokens]
  exact ⟨hBack.value, rfl⟩

/- A text that is read as an array is read as its values. -/
theorem decode_values_of_value
    {s : String}
    {vs : List Value}
    (hDecode : decode Document.value s = .ok (.array vs)) :
    decode Document.values s = .ok vs := by
  rw [decode_eq_ok_iff] at hDecode ⊢
  exact ⟨Document.values_of_value hDecode.1, hDecode.2⟩

end LootFilter.Json

------------------------------------------------------------
-- Written Bytes
------------------------------------------------------------

namespace LootFilter.DataFile

open Json (Document Value)

/- A written document is read as the value it was. -/
theorem holds_encodeJson
    {v : Value}
    (hWithin : v.Within Document.maxDepth)
    (hWhole : ∀ n ∈ v.numbers, n.IsWhole) :
    Holds Document.value (encodeJson v) v := by
  refine ⟨_, fromUTF8?_toUTF8 _, ?_⟩
  rw [dropMark_append]
  exact Json.decode_print hWithin hWhole

/- Bytes of an array are read as its values. -/
theorem Holds.values
    {bytes : ByteArray}
    {vs : List Value}
    (hHolds : Holds Document.value bytes (.array vs)) :
    Holds Document.values bytes vs := by
  rcases hHolds with ⟨whole, hWhole, hDecode⟩
  exact ⟨whole, hWhole, Json.decode_values_of_value hDecode⟩

end LootFilter.DataFile
