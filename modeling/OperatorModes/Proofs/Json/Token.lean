import OperatorModes.Json.Printer
import OperatorModes.Json.Token

/-!
# Strings and numbers read back

The tokens of a document are read back from their spelling, whatever text follows:

> `string (escapedBefore s text) = .ok (s, text)`
> `number ((Number.int i).chars ++ rest) = .ok (.int i, rest)`

Structure: a string goes character by character. The machine that reads strings is back in its
plain state after the escape of each character, with just that character added, so the string level
is an induction over the characters. A number is read as far as it can go, so the text after it has
to stop it (`Stops`); its digits fit into 64 bits together, hence every one of them is absorbed.
-/

namespace OperatorModes.Json

/-! ## Strings -/

theorem length_le_utf8ByteSize (l : List Char) : l.length ≤ (String.ofList l).utf8ByteSize := by
  induction l with
  | nil => exact Nat.zero_le _
  | cons c rest ih =>
    rw [← List.singleton_append, String.ofList_append, String.utf8ByteSize_append,
      ← String.singleton_eq_ofList, String.utf8ByteSize_singleton, List.length_append]
    have hc := c.utf8Size_pos
    simp only [List.length_singleton]
    omega

theorem isShort_of_four (a b c d : Char) (rest : List Char) :
    isShort (a :: b :: c :: d :: rest) = false := by
  have hsize := length_le_utf8ByteSize [a, b, c, d]
  exact decide_eq_false (Nat.not_lt.mpr hsize)

theorem hexValue?_digitChar {k : Nat} (h : k < 16) : hexValue? (Nat.digitChar k) = some k := by
  have hall : ∀ k < 16, hexValue? (Nat.digitChar k) = some k := by decide
  exact hall k h

/-- The four digits of the code of a control character. -/
theorem stringTail_code {n : Nat} (hn : n < 0x20) (done rest : List Char) :
    stringTail .plain done
        ('\\' :: 'u' :: '0' :: '0' :: Nat.digitChar (n / 16) :: Nat.digitChar (n % 16) :: rest)
      = stringTail .plain (Char.ofNat n :: done) rest := by
  have hhigh := hexValue?_digitChar (k := n / 16) (by omega)
  have hlow := hexValue?_digitChar (k := n % 16) (by omega)
  have hzero : hexValue? '0' = some 0 := rfl
  have hvalue : n / 16 * 16 + n % 16 = n := Nat.div_add_mod' n 16
  have hnotLow : isLowSurrogate n = false := by
    simp only [isLowSurrogate, Bool.and_eq_false_iff, decide_eq_false_iff_not]
    omega
  have hnotHigh : isHighSurrogate n = false := by
    simp only [isHighSurrogate, Bool.and_eq_false_iff, decide_eq_false_iff_not]
    omega
  simp [stringTail, isShort_of_four, hhigh, hlow, hzero, hvalue, hnotLow, hnotHigh]

theorem stringTail_letter {c d : Char} (hc : c ≠ 'u') (hd : escaped? c = some d)
    (done rest : List Char) :
    stringTail .plain done ('\\' :: c :: rest) = stringTail .plain (d :: done) rest := by
  simp [stringTail, hc, hd]

/-- **A character is read back from its escape.** -/
theorem stringTail_escapeChar (c : Char) (done rest : List Char) :
    stringTail .plain done (escapeChar c ++ rest) = stringTail .plain (c :: done) rest := by
  by_cases hquote : c = '"'
  · subst hquote
    exact stringTail_letter (by decide) rfl done rest
  by_cases hslash : c = '\\'
  · subst hslash
    exact stringTail_letter (by decide) rfl done rest
  unfold escapeChar
  rw [if_neg hquote, if_neg hslash]
  by_cases hplain : 0x20 ≤ c.toNat
  · rw [if_pos hplain]
    show stringTail .plain done (c :: rest) = _
    rw [stringTail, if_neg hquote, if_neg hslash, if_neg (Nat.not_lt.mpr hplain)]
  · rw [if_neg hplain]
    have hletter : ∀ {n : Nat} {e : Char}, c.toNat = n → e ≠ 'u' →
        escaped? e = some (Char.ofNat n) →
        stringTail .plain done ('\\' :: e :: rest) = stringTail .plain (c :: done) rest := by
      intro n e hn he hread
      rw [stringTail_letter he hread, ← hn, Char.ofNat_toNat]
    -- Five control characters have a letter, the others are written by their code.
    split
    · exact hletter ‹_› (by decide) rfl
    split
    · exact hletter ‹_› (by decide) rfl
    split
    · exact hletter ‹_› (by decide) rfl
    split
    · exact hletter ‹_› (by decide) rfl
    split
    · exact hletter ‹_› (by decide) rfl
    have hcode := stringTail_code (Nat.not_le.mp hplain) done rest
    rw [Char.ofNat_toNat] at hcode
    exact hcode

theorem stringTail_escaped (l : List Char) :
    ∀ done rest : List Char,
      stringTail .plain done (l.flatMap escapeChar ++ '"' :: rest)
        = .ok (String.ofList (done.reverse ++ l), rest) := by
  induction l with
  | nil =>
    intro done rest
    simp [stringTail]
  | cons c l ih =>
    intro done rest
    rw [List.flatMap_cons, List.append_assoc, stringTail_escapeChar, ih, List.reverse_cons,
      List.append_assoc, List.singleton_append]

/-- The spelling of a string after its opening quote, in front of a text. -/
def escapedBefore (s : String) (text : List Char) : List Char :=
  s.toList.flatMap escapeChar ++ '"' :: text

/-- **A string is read back from its spelling.** -/
theorem string_escapedBefore (s : String) (text : List Char) :
    string (escapedBefore s text) = .ok (s, text) := by
  rw [string, escapedBefore, stringTail_escaped, List.reverse_nil, List.nil_append,
    String.ofList_toList]

/-! ## Where a number ends -/

/-- Whether a number in front of the text ends there. -/
def Stops : List Char → Prop
  | [] => True
  | c :: _ => c.isDigit = false ∧ c ≠ '.' ∧ c ≠ 'e' ∧ c ≠ 'E'

theorem stops_of_mem {c : Char} (h : c ∈ [',', ']', '\x7d', '"']) (rest : List Char) :
    Stops (c :: rest) := by
  simp only [List.mem_cons, List.not_mem_nil, or_false] at h
  rcases h with rfl | rfl | rfl | rfl <;> exact ⟨rfl, by decide, by decide, by decide⟩

theorem spanDigits_append {digits rest : List Char} (hdigits : ∀ c ∈ digits, c.isDigit = true)
    (hrest : Stops rest) : spanDigits (digits ++ rest) = (digits, rest) := by
  rw [spanDigits, List.takeWhile_append_of_pos hdigits, List.dropWhile_append_of_pos hdigits]
  cases rest with
  | nil => rw [List.takeWhile_nil, List.dropWhile_nil, List.append_nil]
  | cons c rest =>
    have hc : ¬c.isDigit = true := by rw [hrest.1]; exact Bool.false_ne_true
    rw [List.takeWhile_cons_of_neg hc, List.dropWhile_cons_of_neg hc, List.append_nil]

theorem someDigits_append {digits rest : List Char} (hdigits : ∀ c ∈ digits, c.isDigit = true)
    (hne : digits ≠ []) (hrest : Stops rest) :
    someDigits (digits ++ rest) = .ok (digits, rest) := by
  cases digits with
  | nil => exact absurd rfl hne
  | cons c digits =>
    have hc : c.isDigit = true := hdigits c List.mem_cons_self
    rw [List.cons_append, someDigits, if_pos hc, ← List.cons_append,
      spanDigits_append hdigits hrest]

theorem fractionDigits_of_stops {rest : List Char} (h : Stops rest) :
    fractionDigits rest = .ok (none, rest) := by
  cases rest with
  | nil => rfl
  | cons c rest =>
    rw [fractionDigits]
    intro tail hcons
    exact h.2.1 (List.cons.inj hcons).1

theorem exponentPart_of_stops {rest : List Char} (h : Stops rest) :
    exponentPart rest = .ok (none, rest) := by
  cases rest with
  | nil => rfl
  | cons c rest =>
    have hc : ¬(c = 'e' ∨ c = 'E') := fun hc => hc.elim h.2.2.1 h.2.2.2
    unfold exponentPart
    exact if_neg hc

/-! ## The digits of a number -/

theorem isDigit_of_mem_toDigits {n : Nat} : ∀ c ∈ Nat.toDigits 10 n, c.isDigit = true :=
  fun _ hc => Nat.isDigit_of_mem_toDigits (by decide) (by decide) hc

theorem exists_toDigits_eq_cons (n : Nat) :
    ∃ d ds, Nat.toDigits 10 n = d :: ds ∧ d.isDigit = true := by
  cases hd : Nat.toDigits 10 n with
  | nil => exact absurd hd Nat.toDigits_ne_nil
  | cons d ds =>
    exact ⟨d, ds, rfl, isDigit_of_mem_toDigits d (by rw [hd]; exact List.mem_cons_self)⟩

/-- The digits of a positive number do not start with a zero. -/
theorem head_toDigits_ne_zero {n : Nat} (hn : 0 < n) :
    ∀ {d : Char} {ds : List Char}, Nat.toDigits 10 n = d :: ds → d ≠ '0' := by
  induction n using Nat.strongRecOn with
  | ind n ih =>
    intro d ds heq
    by_cases hlt : n < 10
    · rw [Nat.toDigits_of_lt_base hlt] at heq
      rw [← (List.cons.inj heq).1, Ne, Nat.digitChar_eq_zero]
      omega
    · obtain ⟨c, cs, hquot, -⟩ := exists_toDigits_eq_cons (n / 10)
      rw [Nat.toDigits_of_base_le (by decide) (by omega), hquot, List.cons_append] at heq
      rw [← (List.cons.inj heq).1]
      exact ih (n / 10) (by omega) (by omega) hquot

theorem integerDigits_toDigits (n : Nat) {rest : List Char} (hrest : Stops rest) :
    integerDigits (Nat.toDigits 10 n ++ rest) = .ok (Nat.toDigits 10 n, rest) := by
  have hsome : someDigits (Nat.toDigits 10 n ++ rest) = .ok (Nat.toDigits 10 n, rest) :=
    someDigits_append isDigit_of_mem_toDigits Nat.toDigits_ne_nil hrest
  rcases Nat.eq_zero_or_pos n with hzero | hpos
  · -- A zero stands alone: what follows it is not a digit.
    subst hzero
    rw [Nat.toDigits_zero] at hsome ⊢
    cases rest with
    | nil => exact hsome
    | cons c rest =>
      show (if c.isDigit then _ else someDigits ('0' :: c :: rest)) = _
      rw [hrest.1]
      exact hsome
  · obtain ⟨d, ds, heq, -⟩ := exists_toDigits_eq_cons n
    have hd : d ≠ '0' := head_toDigits_ne_zero hpos heq
    rw [heq, List.cons_append] at hsome ⊢
    rw [integerDigits]
    · exact hsome
    · intro c tail hcons
      exact hd (List.cons.inj hcons).1

theorem le_ofDigitChars (digits : List Char) : ∀ s, s ≤ Nat.ofDigitChars 10 digits s := by
  induction digits with
  | nil => intro s; exact Nat.le_of_eq Nat.ofDigitChars_nil.symm
  | cons c rest ih =>
    intro s
    rw [Nat.ofDigitChars_cons]
    have hnext := ih (10 * s + (c.toNat - '0'.toNat))
    omega

/-- Digits whose value fits into 64 bits are all absorbed. -/
theorem absorb_of_lt (digits : List Char) :
    ∀ s, Nat.ofDigitChars 10 digits s < UInt64.size →
      absorb s digits = (Nat.ofDigitChars 10 digits s, 0) := by
  induction digits with
  | nil => intro s _; rfl
  | cons c rest ih =>
    intro s hlt
    have hnext : s * 10 + digitValue c = 10 * s + (c.toNat - '0'.toNat) := by
      rw [Nat.mul_comm]; rfl
    rw [Nat.ofDigitChars_cons] at hlt ⊢
    have hle := le_ofDigitChars rest (10 * s + (c.toNat - '0'.toNat))
    rw [absorb, hnext, if_pos (by omega), ih _ hlt]

theorem absorb_toDigits {n : Nat} (hn : n < UInt64.size) :
    absorb 0 (Nat.toDigits 10 n) = (n, 0) := by
  have habsorb := absorb_of_lt (Nat.toDigits 10 n) 0 (by rwa [Nat.ofDigitChars_ten_toDigits])
  rw [Nat.ofDigitChars_ten_toDigits] at habsorb
  exact habsorb

/-! ## Numbers -/

theorem number_toDigits {n : Nat} (hn : n < UInt64.size) {rest : List Char} (hrest : Stops rest) :
    number (Nat.toDigits 10 n ++ rest) = .ok (.int n, rest) := by
  have hwhole := integerDigits_toDigits n hrest
  have habsorb := absorb_toDigits hn
  obtain ⟨d, ds, heq, hdigit⟩ := exists_toDigits_eq_cons n
  have hminus : d ≠ '-' := by
    intro h
    rw [h] at hdigit
    exact absurd hdigit (by decide)
  rw [heq, List.cons_append] at hwhole ⊢
  rw [heq] at habsorb
  simp [number, hminus, hwhole, habsorb, fractionDigits_of_stops hrest,
    exponentPart_of_stops hrest, integerNumber, bind, Except.bind]

theorem number_neg_toDigits {n : Nat} (hpos : 0 < n) (hn : n ≤ 0x8000000000000000)
    {rest : List Char} (hrest : Stops rest) :
    number ('-' :: (Nat.toDigits 10 n ++ rest)) = .ok (.int (-n), rest) := by
  have habsorb := absorb_toDigits (Nat.lt_of_le_of_lt hn (by decide))
  have hint : integerNumber true n = .ok (.int (-n)) := by
    rw [integerNumber, if_neg (by decide), if_neg (by omega)]
  simp [number, integerDigits_toDigits n hrest, habsorb, fractionDigits_of_stops hrest,
    exponentPart_of_stops hrest, hint, bind, Except.bind]

theorem chars_ofNat (n : Nat) : (Number.int (.ofNat n)).chars = Nat.toDigits 10 n :=
  Nat.toList_repr

theorem chars_negSucc (n : Nat) :
    (Number.int (.negSucc n)).chars = '-' :: Nat.toDigits 10 (n + 1) := by
  show (Int.negSucc n).repr.toList = _
  rw [Int.repr, String.toList_append, Nat.toList_repr]
  rfl

/-- The integers that a number can be without being a floating-point number. -/
def FitsWord (i : Int) : Prop :=
  -0x8000000000000000 ≤ i ∧ i < 0x10000000000000000

/-- **A 64-bit integer is read back from its spelling.** -/
theorem number_chars {i : Int} (hi : FitsWord i) {rest : List Char} (hrest : Stops rest) :
    number ((Number.int i).chars ++ rest) = .ok (.int i, rest) := by
  obtain ⟨hlow, hhigh⟩ := hi
  cases i with
  | ofNat n =>
    have hn : n < UInt64.size := by
      have hlt : ((n : Nat) : Int) < 0x10000000000000000 := hhigh
      show n < 18446744073709551616
      omega
    rw [chars_ofNat]
    exact number_toDigits hn hrest
  | negSucc n =>
    rw [chars_negSucc]
    exact number_neg_toDigits (Nat.succ_pos n) (by omega) hrest

end OperatorModes.Json
