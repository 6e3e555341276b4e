import LootFilter.Proofs.Evaluation.Arguments
import LootFilter.Proofs.Evaluation.Listed

/-
  The grammar of lists of arguments.

  A list of arguments is read from the front of its text: one
  argument that is required, then further ones up to one that
  is missing or empty, and then nothing may be left.  The
  texts for which this goes well are those that can be cut
  into blanks, written arguments and an end, and there is only
  one such cut.

  Main declarations:
    * `Argument.Lists`
    * `Argument.Lists.unique`
    * `Argument.Reading`
    * `Argument.feed_eq`
    * `Argument.readList_eq_iff`
    * `Argument.listGrammar_of_text`
-/

namespace LootFilter

namespace Argument

open Text (IsWhite IsBlank)

variable {optional : Bool}
variable {cs text body arg rest : List Char}

------------------------------------------------------------
-- Lists of Written Arguments
------------------------------------------------------------

/- Whether a text is an argument as it is written. -/
def Spells (text arg : List Char) : Prop :=
  ∃ body,
    Written text body ∧ Text.trim body = arg ∧ arg ≠ []

/-
  Whether a text ends a list: it is empty or starts with a
  space, and behind its blanks there is nothing, or an empty
  argument with nothing but white space behind it.
-/
def EndsList (cs : List Char) : Prop :=
  IsApart cs ∧
    (Text.skipBlanks cs = [] ∨
      ∃ text body more,
        Text.skipBlanks cs = text ++ more ∧
          Written text body ∧ IsWhite body ∧
          IsApart more ∧ IsWhite more)

/- An argument of a text and the blanks in front of it. -/
structure Piece where
  blanks : List Char
  text : List Char
  arg : List Char
deriving DecidableEq, Repr

/- The text of pieces and of what follows them. -/
def Piece.joined
    (pieces : List Piece)
    (tail : List Char) : List Char :=
  pieces.flatMap (fun p => p.blanks ++ p.text) ++ tail

/-
  Whether a text is cut into arguments and the end of their
  list.  All arguments but the first have a space in front.
-/
structure Lists
    (cs : List Char)
    (pieces : List Piece)
    (tail : List Char) : Prop where
  any : pieces ≠ []
  cut : cs = Piece.joined pieces tail
  blanks : ∀ p ∈ pieces, IsBlank p.blanks
  apart : ∀ p ∈ pieces.tail, p.blanks.head? = some ' '
  spelled : ∀ p ∈ pieces, Spells p.text p.arg
  ends : EndsList tail

/- A written argument does not start with a blank. -/
theorem Spells.head?_append
    (hSpells : Spells text arg)
    (rest : List Char) :
    ∀ c ∈ (text ++ rest).head?, Text.isBlank c = false := by
  rcases hSpells with ⟨body, hWritten, _⟩
  exact hWritten.head?_append rest

/- An argument is read where one is written. -/
theorem next_eq_some_iff :
    next optional cs = .ok (some arg, rest) ↔
      ∃ blanks text,
        IsBlank blanks ∧ cs = blanks ++ (text ++ rest) ∧
          Spells text arg ∧ IsApart rest := by
  rw [next_eq_ok_iff]
  constructor
  · rintro (⟨_, hNone, _⟩ |
        ⟨text, body, hCut, hWritten, hApart, hAccept⟩)
    · cases hNone
    · have hHead := hWritten.head?_append rest
      rcases (Text.skipBlanks_eq_iff hHead).mp hCut with
        ⟨blanks, hBlanks, hText⟩
      exact
        ⟨blanks, text, hBlanks, hText,
          ⟨body, hWritten, accept_eq_some_iff.mp hAccept⟩,
          hApart⟩
  · rintro ⟨blanks, text, hBlanks, hText, hSpells, hApart⟩
    have hHead := hSpells.head?_append rest
    have hCut :=
      (Text.skipBlanks_eq_iff hHead).mpr ⟨blanks, hBlanks, hText⟩
    rcases hSpells with ⟨body, hWritten, hArg⟩
    exact
      Or.inr
        ⟨text, body, hCut, hWritten, hApart,
          accept_eq_some_iff.mpr hArg⟩

/- A list ends where no argument is read and nothing is left. -/
theorem endsList_iff :
    EndsList cs ↔
      IsApart cs ∧
        ∃ rest,
          next true cs = .ok (none, rest) ∧
            remainder rest = none := by
  unfold EndsList
  apply and_congr_right
  intro _
  constructor
  · rintro (hNone |
        ⟨text, body, more, hCut, hWritten, hBody, hApart,
          hMore⟩)
    · exact
        ⟨[], next_eq_ok_iff.mpr (Or.inl ⟨hNone, rfl, rfl⟩),
          rfl⟩
    · have hAccept := accept_eq_none_iff.mpr hBody
      have hNext :=
        next_eq_ok_iff.mpr
          (Or.inr ⟨text, body, hCut, hWritten, hApart, hAccept⟩)
      exact ⟨more, hNext, remainder_eq_none_iff.mpr hMore⟩
  · rintro ⟨rest, hNext, hRest⟩
    rcases next_eq_ok_iff.mp hNext with
      ⟨hNone, _⟩ |
        ⟨text, body, hCut, hWritten, hApart, hAccept⟩
    · exact Or.inl hNone
    · exact
        Or.inr
          ⟨text, body, rest, hCut, hWritten,
            accept_eq_none_iff.mp hAccept, hApart,
            remainder_eq_none_iff.mp hRest⟩

------------------------------------------------------------
-- Lists After Their First Argument
------------------------------------------------------------

/- The arguments of a list behind one of them, and its end. -/
inductive Continues :
    List Char → List Piece → List Char → Prop where
| ends
    {tail : List Char}
    (hEnds : EndsList tail) :
    Continues tail [] tail
| more
    {p : Piece}
    {rest tail : List Char}
    {pieces : List Piece}
    (hBlanks : IsBlank p.blanks)
    (hApart : p.blanks.head? = some ' ')
    (hSpells : Spells p.text p.arg)
    (hRest : Continues rest pieces tail) :
    Continues (p.blanks ++ (p.text ++ rest)) (p :: pieces) tail

variable {tail : List Char} {pieces : List Piece} {p : Piece}

/- What continues a list is empty or starts with a space. -/
theorem Continues.isApart
    (hContinues : Continues cs pieces tail) :
    IsApart cs := by
  cases hContinues with
  | ends hEnds => exact hEnds.1
  | @more p rest tail pieces hBlanks hApart hSpells hRest =>
      intro c hHead
      rw [List.head?_append, hApart] at hHead
      exact (Option.some.inj hHead).symm

/- The pieces of a list after its first one, all at once. -/
theorem continues_iff :
    Continues cs pieces tail ↔
      cs = Piece.joined pieces tail ∧
        (∀ p ∈ pieces, IsBlank p.blanks) ∧
        (∀ p ∈ pieces, p.blanks.head? = some ' ') ∧
        (∀ p ∈ pieces, Spells p.text p.arg) ∧
        EndsList tail := by
  constructor
  · intro hContinues
    induction hContinues with
    | ends hEnds => simp [Piece.joined, hEnds]
    | more hBlanks hApart hSpells hRest ih =>
        rcases ih with
          ⟨rfl, hAllBlanks, hAllApart, hAllSpelled, hEnds⟩
        refine ⟨by simp [Piece.joined], ?_, ?_, ?_, hEnds⟩
        · exact List.forall_mem_cons.mpr ⟨hBlanks, hAllBlanks⟩
        · exact List.forall_mem_cons.mpr ⟨hApart, hAllApart⟩
        · exact List.forall_mem_cons.mpr ⟨hSpells, hAllSpelled⟩
  · rintro ⟨rfl, hBlanks, hApart, hSpelled, hEnds⟩
    induction pieces with
    | nil => exact Continues.ends hEnds
    | cons p pieces ih =>
        rw [List.forall_mem_cons] at hBlanks hApart hSpelled
        have hCut :
            Piece.joined (p :: pieces) tail =
              p.blanks ++ (p.text ++ Piece.joined pieces tail) := by
          simp [Piece.joined]
        rw [hCut]
        exact
          Continues.more hBlanks.1 hApart.1 hSpelled.1
            (ih hBlanks.2 hApart.2 hSpelled.2)

/- A list is its first argument and what continues it. -/
theorem lists_cons_iff :
    Lists cs (p :: pieces) tail ↔
      IsBlank p.blanks ∧ Spells p.text p.arg ∧
        ∃ rest,
          cs = p.blanks ++ (p.text ++ rest) ∧
            Continues rest pieces tail := by
  have hJoined :
      Piece.joined (p :: pieces) tail =
        p.blanks ++ (p.text ++ Piece.joined pieces tail) := by
    simp [Piece.joined]
  constructor
  · intro hLists
    have hBlanks := List.forall_mem_cons.mp hLists.blanks
    have hSpelled := List.forall_mem_cons.mp hLists.spelled
    refine
      ⟨hBlanks.1, hSpelled.1, Piece.joined pieces tail, ?_, ?_⟩
    · rw [← hJoined]
      exact hLists.cut
    · exact
        continues_iff.mpr
          ⟨rfl, hBlanks.2, hLists.apart, hSpelled.2,
            hLists.ends⟩
  · rintro ⟨hBlanks, hSpells, rest, rfl, hRest⟩
    rcases continues_iff.mp hRest with
      ⟨rfl, hAllBlanks, hApart, hAllSpelled, hEnds⟩
    exact
      { any := List.cons_ne_nil _ _
        cut := hJoined.symm
        blanks := List.forall_mem_cons.mpr ⟨hBlanks, hAllBlanks⟩
        apart := hApart
        spelled :=
          List.forall_mem_cons.mpr ⟨hSpells, hAllSpelled⟩
        ends := hEnds }

/-
  A text is cut before its first argument and behind it in one
  way only.
-/
theorem eq_of_spells
    {q : Piece}
    {other : List Char}
    (hBlanks : IsBlank p.blanks)
    (hSpells : Spells p.text p.arg)
    (hApart : IsApart rest)
    (hOtherBlanks : IsBlank q.blanks)
    (hOtherSpells : Spells q.text q.arg)
    (hOtherApart : IsApart other)
    (hCut :
      p.blanks ++ (p.text ++ rest) =
        q.blanks ++ (q.text ++ other)) :
    p = q ∧ rest = other := by
  have hNext :
      next true (p.blanks ++ (p.text ++ rest)) =
        .ok (some p.arg, rest) :=
    next_eq_some_iff.mpr
      ⟨p.blanks, p.text, hBlanks, rfl, hSpells, hApart⟩
  have hOther :
      next true (p.blanks ++ (p.text ++ rest)) =
        .ok (some q.arg, other) :=
    next_eq_some_iff.mpr
      ⟨q.blanks, q.text, hOtherBlanks, hCut, hOtherSpells,
        hOtherApart⟩
  have hSame := hNext.symm.trans hOther
  simp only [Except.ok.injEq, Prod.mk.injEq,
    Option.some.injEq] at hSame
  rcases hSame with ⟨hArg, rfl⟩
  have hFirst :=
    (Text.skipBlanks_eq_iff (hSpells.head?_append rest)).mpr
      ⟨p.blanks, hBlanks, rfl⟩
  have hSecond :=
    (Text.skipBlanks_eq_iff (hOtherSpells.head?_append rest)).mpr
      ⟨q.blanks, hOtherBlanks, hCut⟩
  have hText : p.text = q.text :=
    List.append_cancel_right (hFirst.symm.trans hSecond)
  rw [hText] at hCut
  have hFront : p.blanks = q.blanks :=
    List.append_cancel_right hCut
  refine ⟨?_, rfl⟩
  cases p
  cases q
  simp_all

/- What continues a list is cut in one way only. -/
theorem Continues.unique
    {others : List Piece}
    {last : List Char}
    (hContinues : Continues cs pieces tail)
    (hOther : Continues cs others last) :
    pieces = others ∧ tail = last := by
  -- No text both ends a list and has an argument in front.
  have hApartFromEnd :
      ∀ {cs rest : List Char} {p : Piece},
        IsBlank p.blanks → Spells p.text p.arg →
          IsApart rest →
            cs = p.blanks ++ (p.text ++ rest) →
              ¬ EndsList cs := by
    intro cs rest p hBlanks hSpells hApart hCut hEnds
    rcases (endsList_iff.mp hEnds).2 with ⟨left, hNext, _⟩
    have hSome : next true cs = .ok (some p.arg, rest) :=
      next_eq_some_iff.mpr
        ⟨p.blanks, p.text, hBlanks, hCut, hSpells, hApart⟩
    rw [hNext] at hSome
    cases hSome
  induction hContinues generalizing others with
  | ends hEnds =>
      cases hOther with
      | ends _ => exact ⟨rfl, rfl⟩
      | more hBlanks _ hSpells hRest =>
          exact
            absurd hEnds
              (hApartFromEnd hBlanks hSpells hRest.isApart rfl)
  | @more p rest tail pieces hBlanks _ hSpells hRest ih =>
      generalize hCut : p.blanks ++ (p.text ++ rest) = cs
        at hOther
      cases hOther with
      | ends hEnds =>
          exact
            absurd hEnds
              (hApartFromEnd hBlanks hSpells hRest.isApart
                hCut.symm)
      | @more q other last others hQBlanks _ hQSpells hQRest =>
          rcases eq_of_spells hBlanks hSpells hRest.isApart
              hQBlanks hQSpells hQRest.isApart hCut with
            ⟨rfl, rfl⟩
          rcases ih hQRest with ⟨rfl, rfl⟩
          exact ⟨rfl, rfl⟩

/- A list is cut in one way only. -/
theorem Lists.unique
    {others : List Piece}
    {last : List Char}
    (hLists : Lists cs pieces tail)
    (hOther : Lists cs others last) :
    pieces = others ∧ tail = last := by
  cases pieces with
  | nil => exact absurd rfl hLists.any
  | cons p pieces =>
      cases others with
      | nil => exact absurd rfl hOther.any
      | cons q others =>
          rcases lists_cons_iff.mp hLists with
            ⟨hBlanks, hSpells, rest, rfl, hRest⟩
          rcases lists_cons_iff.mp hOther with
            ⟨hQBlanks, hQSpells, other, hCut, hQRest⟩
          rcases eq_of_spells hBlanks hSpells hRest.isApart
              hQBlanks hQSpells hQRest.isApart hCut with
            ⟨rfl, rfl⟩
          rcases hRest.unique hQRest with ⟨rfl, rfl⟩
          exact ⟨rfl, rfl⟩

------------------------------------------------------------
-- Reading Lists
------------------------------------------------------------

/-
  What reading a list comes to: the arguments that are read
  and why no more can be, unless the list is complete.
-/
structure Reading where
  args : List (List Char)
  failure : Option FormatErrorKind
deriving DecidableEq, Repr

namespace Reading

/- A reading with one more argument in front. -/
def cons (arg : List Char) (r : Reading) : Reading :=
  ⟨arg :: r.args, r.failure⟩

/- Take a step for each argument, and fail as the reading. -/
def feed
    (r : Reading)
    (step :
      Selection →
        List Char → Except FormatErrorKind Selection)
    (s : Selection) : Except FormatErrorKind Selection := do
  let next ← r.args.foldlM step s
  match r.failure with
  | none => .ok next
  | some kind => .error kind

/- The step for an argument in front is taken first. -/
theorem feed_cons
    (arg : List Char)
    (r : Reading)
    (step :
      Selection →
        List Char → Except FormatErrorKind Selection)
    (s : Selection) :
    (r.cons arg).feed step s =
      (step s arg >>= fun next => r.feed step next) := by
  unfold feed cons
  rw [List.foldlM_cons, bind_assoc]

end Reading

/- Read the arguments that may follow one. -/
def readRest
    (kind : PropertyKind)
    (cs : List Char) : Reading :=
  match _hNext : next true cs with
  | .error e => ⟨[], some (.ofLexError e)⟩
  | .ok (none, rest) =>
      ⟨[], (remainder rest).map fun left =>
        .trailingData kind (String.ofList left)⟩
  | .ok (some arg, rest) => (readRest kind rest).cons arg
termination_by cs.length
decreasing_by exact next_length_lt _hNext

/- Read a list with at least one argument. -/
def readList
    (kind : PropertyKind)
    (cs : List Char) : Reading :=
  match Selection.required kind cs with
  | .error e => ⟨[], some e⟩
  | .ok (arg, rest) => (readRest kind rest).cons arg

variable {kind : PropertyKind} {args : List (List Char)}
variable
  {step : Selection → List Char →
    Except FormatErrorKind Selection}

/- Nothing more is read where an argument is spoiled. -/
theorem readRest_of_error
    {e : LexError}
    (hNext : next true cs = .error e) :
    readRest kind cs = ⟨[], some (.ofLexError e)⟩ := by
  rw [readRest]
  split <;> rename_i hRead <;> rw [hNext] at hRead <;>
    cases hRead
  rfl

/- Where no argument is, nothing may be left. -/
theorem readRest_of_none
    (hNext : next true cs = .ok (none, rest)) :
    readRest kind cs =
      ⟨[], (remainder rest).map fun left =>
        .trailingData kind (String.ofList left)⟩ := by
  rw [readRest]
  split <;> rename_i hRead <;> rw [hNext] at hRead <;>
    cases hRead
  rfl

/- Behind an argument the list goes on. -/
theorem readRest_of_some
    (hNext : next true cs = .ok (some arg, rest)) :
    readRest kind cs = (readRest kind rest).cons arg := by
  rw [readRest]
  split <;> rename_i hRead <;> rw [hNext] at hRead <;>
    cases hRead
  rfl

/- Feeding what may follow an argument is reading it. -/
theorem feedRest_eq
    (kind : PropertyKind)
    (step :
      Selection →
        List Char → Except FormatErrorKind Selection)
    (s : Selection)
    (cs : List Char) :
    Selection.feedRest kind step s cs =
      (readRest kind cs).feed step s := by
  fun_induction Selection.feedRest kind step s cs with
  | case1 s cs e hNext =>
      rw [readRest_of_error hNext]
      rfl
  | case2 s cs rest hNext =>
      rw [readRest_of_none hNext]
      unfold Selection.finished
      cases remainder rest <;> rfl
  | case3 s cs arg rest hNext ih =>
      rw [readRest_of_some hNext, Reading.feed_cons]
      exact bind_congr ih

/- Feeding a list is reading it. -/
theorem feed_eq
    (kind : PropertyKind)
    (step :
      Selection →
        List Char → Except FormatErrorKind Selection)
    (s : Selection)
    (cs : List Char) :
    Selection.feed kind step s cs =
      (readList kind cs).feed step s := by
  unfold Selection.feed readList
  cases Selection.required kind cs with
  | error e => rfl
  | ok pair =>
      obtain ⟨arg, rest⟩ := pair
      rw [Reading.feed_cons]
      exact bind_congr fun next => feedRest_eq kind step next rest

------------------------------------------------------------
-- Complete Lists
------------------------------------------------------------

/- An argument in front is that of the whole reading. -/
theorem cons_eq_complete_iff
    {r : Reading} :
    r.cons arg = ⟨args, none⟩ ↔
      ∃ more, r = ⟨more, none⟩ ∧ args = arg :: more := by
  cases r with
  | mk read failure =>
      simp only [Reading.cons, Reading.mk.injEq]
      constructor
      · rintro ⟨rfl, rfl⟩
        exact ⟨read, ⟨rfl, rfl⟩, rfl⟩
      · rintro ⟨more, ⟨rfl, rfl⟩, rfl⟩
        exact ⟨rfl, rfl⟩

/- The blanks of an argument behind another have a space. -/
theorem head?_eq_space_of_isApart
    {blanks : List Char}
    (hSpells : Spells text arg)
    (hApart : IsApart (blanks ++ (text ++ rest))) :
    blanks.head? = some ' ' := by
  cases blanks with
  | cons c blanks => exact congrArg some (hApart c rfl)
  | nil =>
      rcases hSpells with ⟨body, hWritten, _⟩
      have hHead := hWritten.head?_append rest
      cases hWritten with
      | quoted hBody => exact absurd (hApart '"' rfl) (by decide)
      | @bare c more hTab hQuote hSpace =>
          have hFirst : c = ' ' := hApart c rfl
          exact absurd (hHead c rfl) (by rw [hFirst]; decide)

/- Behind an argument, what is read is what continues it. -/
theorem readRest_eq_iff
    (hApart : IsApart cs) :
    readRest kind cs = ⟨args, none⟩ ↔
      ∃ pieces tail,
        Continues cs pieces tail ∧
          pieces.map Piece.arg = args := by
  constructor
  · intro hRead
    fun_induction readRest kind cs generalizing args with
    | case1 cs e hNext => cases hRead
    | case2 cs rest hNext =>
        simp only [Reading.mk.injEq, Option.map_eq_none_iff]
          at hRead
        rcases hRead with ⟨rfl, hRest⟩
        have hEnds : EndsList cs :=
          endsList_iff.mpr ⟨hApart, rest, hNext, hRest⟩
        exact ⟨[], cs, Continues.ends hEnds, rfl⟩
    | case3 cs arg rest hNext ih =>
        rcases cons_eq_complete_iff.mp hRead with
          ⟨more, hMore, rfl⟩
        rcases next_eq_some_iff.mp hNext with
          ⟨blanks, text, hBlanks, rfl, hSpells, hRestApart⟩
        rcases ih hRestApart hMore with
          ⟨pieces, tail, hRest, rfl⟩
        have hSpace := head?_eq_space_of_isApart hSpells hApart
        refine ⟨⟨blanks, text, arg⟩ :: pieces, tail, ?_, rfl⟩
        exact
          @Continues.more ⟨blanks, text, arg⟩ rest tail pieces
            hBlanks hSpace hSpells hRest
  · rintro ⟨pieces, tail, hContinues, rfl⟩
    induction hContinues with
    | ends hEnds =>
        rcases (endsList_iff.mp hEnds).2 with
          ⟨rest, hNext, hRest⟩
        rw [readRest_of_none hNext, hRest]
        rfl
    | @more p rest tail pieces hBlanks _ hSpells hRest ih =>
        have hNext :
            next true (p.blanks ++ (p.text ++ rest)) =
              .ok (some p.arg, rest) :=
          next_eq_some_iff.mpr
            ⟨p.blanks, p.text, hBlanks, rfl, hSpells,
              hRest.isApart⟩
        rw [readRest_of_some hNext, ih hRest.isApart]
        rfl

/- A required argument is there if it is read at all. -/
theorem required_eq_ok_iff :
    Selection.required kind cs = .ok (arg, rest) ↔
      next false cs = .ok (some arg, rest) := by
  unfold Selection.required
  split
  · rename_i hNext
    simp [hNext]
  · rename_i hNext
    simp [hNext]
  · rename_i hNext
    simp [hNext]

/- A list is read if it is one, and its arguments are. -/
theorem readList_eq_iff :
    readList kind cs = ⟨args, none⟩ ↔
      ∃ pieces tail,
        Lists cs pieces tail ∧ pieces.map Piece.arg = args := by
  constructor
  · intro hRead
    unfold readList at hRead
    split at hRead
    · cases hRead
    · rename_i arg rest hRequired
      rcases cons_eq_complete_iff.mp hRead with
        ⟨more, hMore, rfl⟩
      rcases next_eq_some_iff.mp
          (required_eq_ok_iff.mp hRequired) with
        ⟨blanks, text, hBlanks, hCut, hSpells, hApart⟩
      rcases (readRest_eq_iff hApart).mp hMore with
        ⟨pieces, tail, hRest, rfl⟩
      refine ⟨⟨blanks, text, arg⟩ :: pieces, tail, ?_, rfl⟩
      exact lists_cons_iff.mpr ⟨hBlanks, hSpells, rest, hCut, hRest⟩
  · rintro ⟨pieces, tail, hLists, rfl⟩
    cases pieces with
    | nil => exact absurd rfl hLists.any
    | cons p pieces =>
        rcases lists_cons_iff.mp hLists with
          ⟨hBlanks, hSpells, rest, hCut, hRest⟩
        have hRequired :
            Selection.required kind cs = .ok (p.arg, rest) :=
          required_eq_ok_iff.mpr
            (next_eq_some_iff.mpr
              ⟨p.blanks, p.text, hBlanks, hCut, hSpells,
                hRest.isApart⟩)
        have hMore :
            readRest kind rest =
              ⟨pieces.map Piece.arg, none⟩ :=
          (readRest_eq_iff hRest.isApart).mpr
            ⟨pieces, tail, hRest, rfl⟩
        unfold readList
        rw [hRequired]
        dsimp only
        rw [hMore]
        rfl

------------------------------------------------------------
-- The Grammar
------------------------------------------------------------

/-
  What is to be known of the lists in a text.  Properties by
  name and by class feed what is read to their steps.  It is
  read completely exactly if the text is cut into a list, and
  the cut is unique.
-/
structure ListGrammar (cs : List Char) : Prop where
  complete :
    ∀ kind args,
      readList kind cs = ⟨args, none⟩ ↔
        ∃ pieces tail,
          Lists cs pieces tail ∧ pieces.map Piece.arg = args
  unique :
    ∀ pieces tail others last,
      Lists cs pieces tail →
        Lists cs others last →
          pieces = others ∧ tail = last
  feed :
    ∀ kind step s,
      Selection.feed kind step s cs =
        (readList kind cs).feed step s
  byName :
    ∀ c verb s p op,
      p.kind = .baseType →
        operator p.raw.toList = (op, cs) →
          Selection.apply c verb s p =
            (readList .baseType cs).feed
              (Selection.addFragment c op) s
  byClass :
    ∀ c verb s p,
      p.kind = .itemClass →
        p.raw.toList = cs →
          Selection.apply c verb s p =
            (readList .itemClass cs).feed
              (Selection.addClassName c) s

/- Lists of arguments are read by their grammar. -/
theorem listGrammar_of_text (cs : List Char) :
    ListGrammar cs where
  complete _ _ := readList_eq_iff
  unique _ _ _ _ hLists hOther := hLists.unique hOther
  feed kind step s := feed_eq kind step s cs
  byName := by
    intro c verb s p op hKind hOperator
    unfold Selection.apply
    rw [hKind]
    dsimp only
    rw [hOperator]
    exact feed_eq .baseType (Selection.addFragment c op) s cs
  byClass := by
    intro c verb s p hKind hRaw
    unfold Selection.apply
    rw [hKind]
    dsimp only
    rw [hRaw]
    exact feed_eq .itemClass (Selection.addClassName c) s cs

end Argument

end LootFilter
