/-
# RestCase.Proofs.Json.Scalars — numbers and strings read as they were written

The decimal text of an integer that fits 64 bits, signed or unsigned, is read as that integer as
long as nothing follows that a number could go on with (`readNumber_digits`).  A quoted string is
read as the string that it quotes, whatever characters that has: each of them is read back from its
own escape (`readString_escape`).
-/
import RestCase.Json.Reader
import RestCase.Json.Render

namespace RestCase

namespace Chars

/-! ## Decimal digits -/

/-- The digits of a number other than zero do not begin with a zero. -/
theorem head?_digits_ne_zero {n : Nat} (h : n ≠ 0) : (digits n).head? ≠ some '0' := by
  induction n using Nat.strongRecOn with
  | ind n ih =>
    rw [digits]
    split
    · next hlt =>
      have hne : ∀ d < 10, d ≠ 0 → digitChar d ≠ '0' := by decide
      simpa using hne n hlt h
    · next hge =>
      have hquotient : n / 10 ≠ 0 := by omega
      have hrest : (digits (n / 10)).head? ≠ some '0' := ih (n / 10) (by omega) hquotient
      cases hdigits : digits (n / 10) with
      | nil => exact absurd hdigits (digits_ne_nil _)
      | cons d ds =>
        rw [hdigits] at hrest
        exact hrest

/-- More digits never make a number smaller. -/
theorem le_foldl_digits (s : List Char) (n : Nat) :
    n ≤ s.foldl (fun m c => m * 10 + digitValue c) n := by
  induction s generalizing n with
  | nil => exact Nat.le_refl n
  | cons c r ih =>
    have hstep : n ≤ n * 10 + digitValue c := by omega
    exact Nat.le_trans hstep (ih _)

theorem utf8Size_cons (c : Char) (r : List Char) : utf8Size (c :: r) = c.utf8Size + utf8Size r := by
  have hfold : ∀ (s : List Char) (n : Nat),
      s.foldl (fun m c => m + c.utf8Size) n = n + s.foldl (fun m c => m + c.utf8Size) 0 := by
    intro s
    induction s with
    | nil => intro n; rfl
    | cons d s ih =>
      intro n
      rw [List.foldl_cons, List.foldl_cons, ih (n + d.utf8Size), ih (0 + d.utf8Size)]
      omega
  show List.foldl _ (0 + c.utf8Size) r = _
  rw [hfold]
  show _ = c.utf8Size + List.foldl _ 0 r
  omega

/-- A text has at least as many bytes as characters. -/
theorem length_le_utf8Size (s : List Char) : s.length ≤ utf8Size s := by
  induction s with
  | nil => exact Nat.zero_le _
  | cons c r ih =>
    have hbyte : 0 < c.utf8Size := Char.utf8Size_pos c
    rw [utf8Size_cons, List.length_cons]
    omega

end Chars

namespace Json

/-! ## Numbers -/

/-- Nothing at the front of the text could continue a number. -/
def EndsNumber (s : List Char) : Prop :=
  ∀ c ∈ s.head?, Chars.isDigit c = false ∧ c ≠ '.' ∧ c ≠ 'e' ∧ c ≠ 'E'

/-- The integers that a text keeps: those of 64 bits, signed or unsigned. -/
def IsWord (n : Int) : Prop := -0x8000000000000000 ≤ n ∧ n ≤ 0xFFFFFFFFFFFFFFFF

instance (n : Int) : Decidable (IsWord n) :=
  inferInstanceAs (Decidable (-0x8000000000000000 ≤ n ∧ n ≤ 0xFFFFFFFFFFFFFFFF))

/-- No digit is left out of a number that fits a word. -/
theorem wholePart_eq {s : List Char} {acc : Nat}
    (h : s.foldl (fun m c => m * 10 + Chars.digitValue c) acc ≤ Chars.maxWord64) :
    wholePart acc s = (s.foldl (fun m c => m * 10 + Chars.digitValue c) acc, 0) := by
  induction s generalizing acc with
  | nil => rfl
  | cons c r ih =>
    have hnext : acc * 10 + Chars.digitValue c ≤ Chars.maxWord64 :=
      Nat.le_trans (Chars.le_foldl_digits r _) h
    rw [wholePart, if_neg (Nat.not_lt.2 hnext)]
    exact ih h

theorem wholePart_digits {n : Nat} (h : n ≤ Chars.maxWord64) :
    wholePart 0 (Chars.digits n) = (n, 0) := by
  have hvalue : (Chars.digits n).foldl (fun m c => m * 10 + Chars.digitValue c) 0 = n :=
    Chars.ofDigits_digits n
  rw [wholePart_eq (hvalue.symm ▸ h), hvalue]

/-- What a whole number is read as: itself, or itself with a minus sign in front. -/
theorem ofWhole?_digits {negative : Bool} {n : Nat} {v : Int}
    (hv : v = if negative then -(n : Int) else n) (hword : IsWord v)
    (hsign : negative = true → n ≠ 0) :
    ofWhole? negative (Chars.digits n) = some (int v) := by
  unfold IsWord at hword
  have hn : n ≤ Chars.maxWord64 := by
    unfold Chars.maxWord64
    cases negative <;> simp at hv <;> omega
  unfold ofWhole?
  rw [wholePart_digits hn]
  cases negative with
  | false => simp [hv]
  | true =>
    have hzero : n ≠ 0 := hsign rfl
    have hleast : 0 < n ∧ n ≤ 0x8000000000000000 := by
      simp at hv
      omega
    simp [hv, hleast]

/-- Behind the digits of a whole number nothing changes it. -/
theorem readNumberTail_of_endsNumber {negative : Bool} {whole rest : List Char} {v : Json}
    (hwhole : ofWhole? negative whole = some v) (hrest : EndsNumber rest) :
    readNumberTail negative whole rest = .ok (v, rest) := by
  unfold readNumberTail
  cases rest with
  | nil => simp [hwhole]
  | cons c r =>
    obtain ⟨-, hpoint, hlower, hupper⟩ := hrest c rfl
    simp only
    split
    · next h => exact absurd (List.cons.inj h).1 hpoint
    · next h => exact absurd (List.cons.inj h).1 hlower
    · next h => exact absurd (List.cons.inj h).1 hupper
    · rw [hwhole]

/-- **The digits of a number are read as that number** by `readNumber`, with either sign in front
of them. -/
theorem readNumber_digits {negative : Bool} {n : Nat} {v : Int} {rest : List Char}
    (hv : v = if negative then -(n : Int) else n) (hword : IsWord v)
    (hsign : negative = true → n ≠ 0) (hrest : EndsNumber rest) :
    readNumber negative (Chars.digits n ++ rest) = .ok (int v, rest) := by
  have hwhole : ofWhole? negative (Chars.digits n) = some (int v) := ofWhole?_digits hv hword hsign
  have htail : readNumberTail negative (Chars.digits n) rest = .ok (int v, rest) :=
    readNumberTail_of_endsNumber hwhole hrest
  by_cases hn : n = 0
  · -- a zero stands alone: a digit behind it would be refused
    subst hn
    have hdigits : Chars.digits 0 = ['0'] := by
      rw [Chars.digits]
      rfl
    have hnext : ((rest.head?.map Chars.isDigit).getD false) = false := by
      cases rest with
      | nil => rfl
      | cons c r => exact (hrest c rfl).1
    rw [hdigits] at htail ⊢
    simp only [List.cons_append, List.nil_append, readNumber, hnext, Bool.false_eq_true, if_false]
    exact htail
  · have hhead := Chars.head?_digits_ne_zero hn
    have htake : Chars.takeDigits (Chars.digits n ++ rest) = (Chars.digits n, rest) :=
      Chars.takeDigits_append (Chars.isDigit_of_mem_digits n) fun c hc => (hrest c hc).1
    cases hdigits : Chars.digits n with
    | nil => exact absurd hdigits (Chars.digits_ne_nil n)
    | cons d ds =>
      rw [hdigits] at hhead htail htake
      have hd : d ≠ '0' := by
        rintro rfl
        exact hhead rfl
      rw [List.cons_append] at htake ⊢
      unfold readNumber
      split
      · next h => cases h
      · next h => exact absurd (List.cons.inj h).1 hd
      · rw [htake]
        exact htail

/-! ## Strings -/

theorem hexChar_spec {d : Nat} (h : d < 16) :
    Chars.isHexDigit (hexChar d) = true ∧ Chars.hexValue (hexChar d) = d := by
  have hall : ∀ d < 16, Chars.isHexDigit (hexChar d) = true ∧ Chars.hexValue (hexChar d) = d := by
    decide
  exact hall d h

/-- Two hexadecimal digits behind two zeros are read by `readHex` as their number. -/
theorem readHex_byte {n : Nat} (h : n < 256) (rest : List Char) :
    readHex ('0' :: '0' :: hexChar (n / 16) :: hexChar (n % 16) :: rest) = .ok (n, rest) := by
  obtain ⟨hhigh, hhighValue⟩ := hexChar_spec (d := n / 16) (by omega)
  obtain ⟨hlow, hlowValue⟩ := hexChar_spec (d := n % 16) (by omega)
  have hsize : ¬ Chars.utf8Size
      ('0' :: '0' :: hexChar (n / 16) :: hexChar (n % 16) :: rest) < 4 := by
    have hlength := Chars.length_le_utf8Size
      ('0' :: '0' :: hexChar (n / 16) :: hexChar (n % 16) :: rest)
    simp only [List.length_cons] at hlength
    omega
  have hzero : Chars.isHexDigit '0' = true ∧ Chars.hexValue '0' = 0 := by decide
  have hvalue : (n / 16) * 16 + n % 16 = n := by omega
  unfold readHex
  rw [if_neg hsize]
  simp [hzero.1, hzero.2, hhigh, hlow, hhighValue, hlowValue, hvalue]

/-- **One character is read back from its escape** (`escapeChar`), whatever follows. -/
theorem readChars_escapeChar (c : Char) {fuel : Nat} {tail xs rest : List Char}
    (h : readChars fuel tail = .ok (xs, rest)) :
    readChars (fuel + 1) (escapeChar c ++ tail) = .ok (c :: xs, rest) := by
  unfold escapeChar
  split
  · next hc => simp [readChars, readEscape, h, hc]
  split
  · next hc => simp [readChars, readEscape, h, hc]
  split
  · next hquote hbackslash hprintable =>
    have hplain : ¬ c.toNat < 0x20 := Nat.not_lt.2 hprintable
    rw [List.singleton_append, readChars, if_neg hquote, if_neg hbackslash, if_neg hplain, h]
  split
  · next hc => simp [readChars, readEscape, h, hc]
  split
  · next hc => simp [readChars, readEscape, h, hc]
  split
  · next hc => simp [readChars, readEscape, h, hc]
  split
  · next hc => simp [readChars, readEscape, h, hc]
  split
  · next hc => simp [readChars, readEscape, h, hc]
  · next hcontrol _ _ _ _ _ =>
    have hhex := readHex_byte (n := c.toNat) (by omega) tail
    have hlow : ¬ (0xDC00 ≤ c.toNat ∧ c.toNat ≤ 0xDFFF) := by omega
    have hhigh : ¬ (0xD800 ≤ c.toNat ∧ c.toNat ≤ 0xDBFF) := by omega
    have hescape : readEscape ('u' :: '0' :: '0' :: hexChar (c.toNat / 16) ::
        hexChar (c.toNat % 16) :: tail) = .ok (c, tail) := by
      rw [readEscape, hhex]
      simp only [hlow, hhigh, if_false, Char.ofNat_toNat]
    have hmark : ¬ ('\\' = '"') := by decide
    simp only [List.cons_append, List.nil_append, readChars, hmark, if_false, if_true, hescape, h]

theorem readChars_escape (s rest : List Char) {fuel : Nat} (h : s.length < fuel) :
    readChars fuel (escape s ++ '"' :: rest) = .ok (s, rest) := by
  induction s generalizing fuel with
  | nil =>
    obtain ⟨fuel, rfl⟩ := Nat.exists_eq_succ_of_ne_zero (Nat.ne_zero_of_lt h)
    simp [escape, readChars]
  | cons c r ih =>
    obtain ⟨fuel, rfl⟩ := Nat.exists_eq_succ_of_ne_zero (Nat.ne_zero_of_lt h)
    rw [escape, List.append_assoc]
    exact readChars_escapeChar c (ih (Nat.lt_of_succ_lt_succ h))

theorem escapeChar_ne_nil (c : Char) : escapeChar c ≠ [] := by
  unfold escapeChar
  repeat' split
  all_goals simp

/-- An escaped text is at least as long as the text. -/
theorem length_le_escape (s : List Char) : s.length ≤ (escape s).length := by
  induction s with
  | nil => exact Nat.zero_le _
  | cons c r ih =>
    have hchar : 0 < (escapeChar c).length := List.length_pos_iff.2 (escapeChar_ne_nil c)
    rw [escape, List.length_append, List.length_cons]
    omega

/-- **The text between quotes is read as the string that was quoted** (`escape`), up to its
closing quote. -/
theorem readString_escape (s : String) (rest : List Char) :
    readString (escape s.toList ++ '"' :: rest) = .ok (s, rest) := by
  have hlength := length_le_escape s.toList
  have hfuel : s.toList.length < (escape s.toList ++ '"' :: rest).length + 1 := by
    rw [List.length_append]
    omega
  rw [readString, readChars_escape s.toList rest hfuel]
  simp

end Json

end RestCase
