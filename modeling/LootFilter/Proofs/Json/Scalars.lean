import LootFilter.Json.Printer
import LootFilter.Json.Token
import Mathlib.Data.List.Basic

/-
  Printed texts and integers are read as what they were.

  A character is scanned as one piece, plain or numbered, of
  which it is decoded again.  The digits of an integer are
  gathered up to it, if 64 bits hold it; what follows them
  must not go on with the numeral.

  Main declarations:
    * `Json.Literal.ofPrinted`
    * `Json.Literal.scan_flatMap_escapeChar`
    * `Json.Literal.text_ofPrinted`
    * `Json.Numeral.ofInt`
    * `Json.Numeral.scan_print`
    * `Json.Numeral.number?_ofInt`
-/

namespace LootFilter.Json

------------------------------------------------------------
-- Texts
------------------------------------------------------------

namespace Literal

/- The piece that a character is printed as. -/
def pieceOf (c : Char) : Piece :=
  if c.toNat < 0x20 ∧
      c ∉ ['\x08', '\x0c', '\n', '\r', '\t'] then
    .unit c.toNat
  else
    .plain c

/- The literal that a text is printed as. -/
def ofPrinted (s : String) : Literal :=
  ⟨s.toList.map pieceOf, none⟩

/- Two digits number each character below the space. -/
theorem unitValue_hexDigit :
    ∀ n < 0x20,
      unitValue '0' '0' (hexDigit (n / 16))
          (hexDigit (n % 16)) =
        some n := by
  decide

/- A printed character is scanned as its piece. -/
theorem scan_escapeChar (c : Char) (rest : List Char) :
    scan (escapeChar c ++ rest) =
      ((scan rest).1.push (pieceOf c), (scan rest).2) := by
  by_cases hShort :
      c ∈ ['"', '\\', '\x08', '\x0c', '\n', '\r', '\t']
  · simp only [List.mem_cons, List.not_mem_nil, or_false]
      at hShort
    rcases hShort with
      rfl | rfl | rfl | rfl | rfl | rfl | rfl <;>
      rfl
  · simp only [List.mem_cons, List.not_mem_nil, or_false,
      not_or] at hShort
    obtain ⟨hQuote, hSlash, h8, hC, hN, hR, hT⟩ := hShort
    by_cases hControl : c.toNat < 0x20
    · have hUnit := unitValue_hexDigit c.toNat hControl
      simp [escapeChar, pieceOf, scan, hQuote, hSlash, h8, hC,
        hN, hR, hT, hControl, hUnit]
    · have hEscape : escapeChar c = [c] := by
        simp [escapeChar, hQuote, hSlash, h8, hC, hN, hR, hT,
          hControl]
      have hPiece : pieceOf c = .plain c := by
        simp [pieceOf, hControl]
      rw [hEscape, hPiece, List.singleton_append, scan.eq_def]
      simp [hQuote, hSlash, hControl]

/- Printed characters are scanned up to the closing quote. -/
theorem scan_flatMap_escapeChar
    (cs rest : List Char) :
    scan (cs.flatMap escapeChar ++ '"' :: rest) =
      (⟨cs.map pieceOf, none⟩, rest) := by
  induction cs with
  | nil =>
      rw [List.flatMap_nil, List.nil_append, scan.eq_def]
      simp
  | cons c cs ih =>
      rw [List.flatMap_cons, List.append_assoc,
        scan_escapeChar, ih]
      rfl

/- A printed character is decoded as itself. -/
theorem decode_pieceOf
    (cut : Fault)
    (c : Char)
    (rest : List Piece) :
    decode cut (pieceOf c :: rest) =
      (decode cut rest).map (c :: ·) := by
  unfold pieceOf
  split
  · rename_i hControl
    have hBelow : c.toNat < 0x20 := hControl.1
    have hLow : isLowSurrogate c.toNat = false := by
      have hNot : ¬0xDC00 ≤ c.toNat := by omega
      simp [isLowSurrogate, hNot]
    have hHigh : isHighSurrogate c.toNat = false := by
      have hNot : ¬0xD800 ≤ c.toNat := by omega
      simp [isHighSurrogate, hNot]
    rw [decode.eq_def]
    simp [hLow, hHigh]
  · rfl

/- A printed text is read as itself. -/
theorem text_ofPrinted (s : String) :
    (ofPrinted s).text = .ok s := by
  have hDecode :
      ∀ cs : List Char,
        decode .malformed (cs.map pieceOf) = .ok cs := by
    intro cs
    induction cs with
    | nil => rfl
    | cons c cs ih =>
        rw [List.map_cons, decode_pieceOf, ih]
        rfl
  simp [text, ofPrinted, hDecode]

end Literal

------------------------------------------------------------
-- Integers
------------------------------------------------------------

namespace Numeral

/- The numeral that an integer is printed as. -/
def ofInt (n : Int) : Numeral :=
  ⟨decide (n < 0),
    (Number.digits n.natAbs).map digitValue, [], none⟩

/- Whether a text does not go on with an integer before it. -/
def EndsNumeral (rest : List Char) : Prop :=
  ∀ c ∈ rest.head?,
    c.isDigit = false ∧ c ≠ '.' ∧ c ≠ 'e' ∧ c ≠ 'E'

variable {rest : List Char}

/- Digits are scanned up to what is none. -/
theorem scanDigits_append
    {cs : List Char}
    (hSome : cs ≠ [])
    (hDigits : ∀ c ∈ cs, c.isDigit = true)
    (hRest : EndsNumeral rest) :
    scanDigits (cs ++ rest) = .ok (cs.map digitValue, rest) := by
  have hNone : rest.takeWhile Char.isDigit = [] ∧
      rest.dropWhile Char.isDigit = rest := by
    cases rest with
    | nil => exact ⟨rfl, rfl⟩
    | cons c rest =>
        have hEnd := (hRest c rfl).1
        simp [hEnd]
  cases cs with
  | nil => exact absurd rfl hSome
  | cons c cs =>
      have hFirst := hDigits c List.mem_cons_self
      rw [List.cons_append, scanDigits.eq_def]
      simp only [hFirst, if_true]
      rw [← List.cons_append,
        List.takeWhile_append_of_pos hDigits,
        List.dropWhile_append_of_pos hDigits, hNone.1, hNone.2,
        List.append_nil]

/- The digits of a number are digits, and at least one. -/
theorem isDigit_of_mem_digits
    {n : Nat}
    {c : Char}
    (hMem : c ∈ Number.digits n) :
    c.isDigit = true :=
  Nat.isDigit_of_mem_toDigits (by decide) (by decide) hMem

/- Only zero starts with a zero. -/
theorem head_digits
    {n : Nat}
    (hPos : 0 < n) :
    ∃ c cs, Number.digits n = c :: cs ∧ c ≠ '0' := by
  induction n using Nat.strongRecOn with
  | ind n ih =>
      unfold Number.digits
      by_cases hSmall : n < 10
      · rw [Nat.toDigits_of_lt_base hSmall]
        refine ⟨_, [], rfl, ?_⟩
        have hEach :
            ∀ d < 10, 0 < d → Nat.digitChar d ≠ '0' := by
          decide
        exact hEach n hSmall hPos
      · have hLe : 10 ≤ n := Nat.le_of_not_lt hSmall
        rcases ih (n / 10) (by omega) (by omega) with
          ⟨c, cs, hDigits, hNe⟩
        unfold Number.digits at hDigits
        rw [Nat.toDigits_of_base_le (by decide) hLe, hDigits]
        exact ⟨c, _, rfl, hNe⟩

/- The digits of a number are scanned as a whole part. -/
theorem scanWhole_digits
    (n : Nat)
    (hRest : EndsNumeral rest) :
    scanWhole (Number.digits n ++ rest) =
      .ok ((Number.digits n).map digitValue, rest) := by
  have hDigits :
      scanDigits (Number.digits n ++ rest) =
        .ok ((Number.digits n).map digitValue, rest) :=
    scanDigits_append Nat.toDigits_ne_nil
      (fun _ hMem => isDigit_of_mem_digits hMem) hRest
  rcases Nat.eq_zero_or_pos n with rfl | hPos
  · have hZero : Number.digits 0 = ['0'] := rfl
    rw [hZero] at hDigits ⊢
    cases rest with
    | nil => exact hDigits
    | cons c rest =>
        have hEnd := (hRest c rfl).1
        simp [scanWhole, hEnd, digitValue]
  · rcases head_digits hPos with ⟨c, cs, hHead, hNe⟩
    rw [hHead] at hDigits ⊢
    rw [← hDigits]
    unfold scanWhole
    split
    · rename_i hZero
      exact absurd (List.cons.inj hZero).1 hNe
    · rfl

/- What follows an integer is no fraction and no exponent. -/
theorem scan_rest
    (hRest : EndsNumeral rest) :
    scanFraction rest = .ok ([], rest) ∧
      scanExponent rest = .ok (none, rest) := by
  cases rest with
  | nil => exact ⟨rfl, rfl⟩
  | cons c rest =>
      obtain ⟨_, hPoint, hLower, hUpper⟩ := hRest c rfl
      constructor
      · unfold scanFraction
        split
        · rename_i hDot
          exact absurd (List.cons.inj hDot).1 hPoint
        · rfl
      · simp [scanExponent, hLower, hUpper]

/- The sign of an integer is taken off its digits. -/
theorem scanMinus_print (n : Int) (rest : List Char) :
    scanMinus ((Number.int n).print ++ rest) =
      (decide (n < 0), Number.digits n.natAbs ++ rest) := by
  have hPrint :
      (Number.int n).print =
        (if n < 0 then ['-'] else []) ++
          Number.digits n.natAbs :=
    rfl
  rw [hPrint]
  by_cases hNegative : n < 0
  · simp [hNegative, scanMinus]
  · rw [if_neg hNegative, List.nil_append,
      decide_eq_false hNegative]
    unfold scanMinus
    split
    · rename_i hMinus
      -- A minus sign is no digit.
      have hMem : '-' ∈ Number.digits n.natAbs := by
        cases hDigits : Number.digits n.natAbs with
        | nil => exact absurd hDigits Nat.toDigits_ne_nil
        | cons c cs =>
            rw [hDigits] at hMinus
            rw [(List.cons.inj hMinus).1]
            exact List.mem_cons_self
      exact absurd (isDigit_of_mem_digits hMem) (by decide)
    · rfl

/- A printed integer starts with its sign or a digit. -/
theorem exists_head_print (n : Int) :
    ∃ c cs,
      (Number.int n).print = c :: cs ∧
        (c = '-' ∨ c.isDigit = true) := by
  by_cases hNegative : n < 0
  · exact ⟨'-', _, by simp [Number.print, hNegative]; rfl,
      Or.inl rfl⟩
  · cases hDigits : Number.digits n.natAbs with
    | nil => exact absurd hDigits Nat.toDigits_ne_nil
    | cons c cs =>
        refine ⟨c, cs, ?_, Or.inr ?_⟩
        · simp [Number.print, hNegative, hDigits]
        · apply isDigit_of_mem_digits (n := n.natAbs)
          rw [hDigits]
          exact List.mem_cons_self

/- A printed integer is scanned as its numeral. -/
theorem scan_print
    (n : Int)
    (hRest : EndsNumeral rest) :
    scan ((Number.int n).print ++ rest) =
      .ok (ofInt n, rest) := by
  unfold scan
  rw [scanMinus_print]
  simp [scanWhole_digits n.natAbs hRest, scan_rest hRest,
    bind, Except.bind, pure, Except.pure, ofInt]

/- Reading on does not make a significand smaller. -/
theorem le_ofDigitChars (cs : List Char) (init : Nat) :
    init ≤ Nat.ofDigitChars 10 cs init := by
  induction cs generalizing init with
  | nil => simp
  | cons c cs ih =>
      rw [Nat.ofDigitChars_cons]
      exact Nat.le_trans (by omega) (ih _)

/- Digits are gathered up to the number that they spell. -/
theorem gather_map_digitValue
    {cs : List Char}
    {init : Nat}
    (hBound :
      Nat.ofDigitChars 10 cs init < significandBound) :
    gather init (cs.map digitValue) =
      (Nat.ofDigitChars 10 cs init, 0) := by
  induction cs generalizing init with
  | nil => simp [gather]
  | cons c cs ih =>
      have hDigit : '0'.toNat = 48 := rfl
      rw [Nat.ofDigitChars_cons, hDigit] at hBound ⊢
      have hLe := le_ofDigitChars cs (10 * init + (c.toNat - 48))
      rw [List.map_cons, gather, digitValue,
        Nat.mul_comm init 10, if_pos (by omega)]
      exact ih hBound

/- The numeral of an integer of 64 bits stands for it. -/
theorem number?_ofInt
    {n : Int}
    (hLow : -0x8000000000000000 ≤ n)
    (hHigh : n < 0x10000000000000000) :
    (ofInt n).number? = some (.int n) := by
  have hSpelled :
      Nat.ofDigitChars 10 (Number.digits n.natAbs) 0 =
        n.natAbs :=
    Nat.ofDigitChars_ten_toDigits
  have hGather :
      gather 0 ((Number.digits n.natAbs).map digitValue) =
        (n.natAbs, 0) := by
    rw [gather_map_digitValue] <;> rw [hSpelled]
    unfold significandBound
    omega
  have hSign :
      decide (n < 0) = false ∨
        (0 < n.natAbs ∧ n.natAbs ≤ negativeBound) := by
    unfold negativeBound
    by_cases hNegative : n < 0
    · right
      omega
    · left
      exact decide_eq_false hNegative
  have hValue :
      (if decide (n < 0) = true then -(n.natAbs : Int)
        else n.natAbs) = n := by
    by_cases hNegative : n < 0
    · rw [if_pos (decide_eq_true hNegative)]
      omega
    · rw [if_neg (by simpa using hNegative)]
      omega
  unfold number? ofInt
  simp only [hGather]
  rw [if_pos ⟨trivial, trivial, trivial, hSign⟩, hValue]

end Numeral

end LootFilter.Json
