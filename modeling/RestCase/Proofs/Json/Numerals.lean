/-
# RestCase.Proofs.Json.Numerals — numerals

A `Numeral` is an optional minus sign, at least one digit, and optionally a point and at least one
more digit.  Two parts of the library have a say in which texts count as numbers.  A pattern admits
the numerals in the digits of any script (`Json.isNumeral_iff`); the reader of decimals takes ASCII
digits only, but it takes much else, such as exponents, a point without digits, infinities and what
is no number.

What passes both is a numeral in ASCII digits (`Numeral.exists_ascii`), and the reader gives the
number nearest to its value (`Numeral.ofChars?_chars`; the cut-offs by size do not change it,
`Decimal.toBinary64_neg`), so that the order of numbers never meets what is no number.
`Json.toNumber?_eq_some_iff` says which values count as numbers, and as which.
-/
import Mathlib.Data.List.TakeWhile
import RestCase.Json.Coercion
import RestCase.Proofs.Binary64.Rounding
import RestCase.Proofs.Chars.Decimals

namespace RestCase

/-! ## Digits -/

namespace Chars

/-- Digits of a kind, at least one of them. -/
def AreDigits (digit : Char → Bool) (s : List Char) : Prop :=
  s ≠ [] ∧ ∀ c ∈ s, digit c = true

theorem AreDigits.imp {digit kind : Char → Bool} {s : List Char} (hs : AreDigits digit s)
    (h : ∀ c ∈ s, digit c = true → kind c = true) : AreDigits kind s :=
  ⟨hs.1, fun c hc => h c hc (hs.2 c hc)⟩

/-- Apart from the ASCII digits all decimal digits are far from ASCII. -/
theorem toNat_of_isDecimalDigit {c : Char} (h : isDecimalDigit c = true) :
    (48 ≤ c.toNat ∧ c.toNat ≤ 57) ∨ 0x660 ≤ c.toNat := by
  have hranges : ∀ r ∈ decimalDigitRanges, r = (48, 57) ∨ 0x660 ≤ r.1 := by decide
  simp only [isDecimalDigit, inRanges, List.any_eq_true, Bool.and_eq_true,
    decide_eq_true_eq] at h
  obtain ⟨r, hr, hlow, hhigh⟩ := h
  rcases hranges r hr with rfl | hfar
  · exact .inl ⟨hlow, hhigh⟩
  · exact .inr (Nat.le_trans hfar hlow)

/-- A decimal digit has no case. -/
theorem toLower_of_isDecimalDigit {c : Char} (h : isDecimalDigit c = true) : c.toLower = c := by
  have hnat := toNat_of_isDecimalDigit h
  have hupper : ¬ (c.val ≥ 'A'.val ∧ c.val ≤ 'Z'.val) := by
    rintro ⟨hlow, hhigh⟩
    have hlow' : 65 ≤ c.toNat := UInt32.le_iff_toNat_le.1 hlow
    have hhigh' : c.toNat ≤ 90 := UInt32.le_iff_toNat_le.1 hhigh
    omega
  exact dif_neg hupper

/-- A text that begins with a decimal digit is no word of letters. -/
theorem sameIgnoringCase_of_isDecimalDigit {c d : Char} {s word : List Char}
    (hc : isDecimalDigit c = true) (hd : isDecimalDigit d.toLower = false) :
    sameIgnoringCase (c :: s) (d :: word) = false := by
  rw [Bool.eq_false_iff, Ne, sameIgnoringCase_iff]
  intro h
  have hhead : c.toLower = d.toLower := (List.cons.inj h).1
  rw [toLower_of_isDecimalDigit hc] at hhead
  rw [hhead, hd] at hc
  cases hc

theorem takeDigits_eq (s : List Char) :
    takeDigits s = (s.takeWhile isDigit, s.dropWhile isDigit) := by
  induction s with
  | nil => rfl
  | cons c s ih =>
    by_cases hc : isDigit c = true
    · simp [takeDigits, ih, hc]
    · simp [takeDigits, hc]

/-- Digits alone are all taken. -/
theorem takeDigits_eq_self {s : List Char} (h : ∀ c ∈ s, isDigit c = true) :
    takeDigits s = (s, []) := by
  rw [takeDigits_eq, List.takeWhile_eq_self_iff.2 h, List.dropWhile_eq_nil_iff.2 h]

end Chars

/-! ## Decimals -/

namespace Binary64

theorem ofRatio_eq_of_nearestRank_eq {negative : Bool} {a b d e : Nat}
    (h : nearestRank a d = nearestRank b e) : ofRatio negative a d = ofRatio negative b e := by
  simp only [ofRatio, Finite64.ofRatio?, h]

theorem ofRatio_eq_infinite {negative : Bool} {n d : Nat}
    (h : Finite64.rankLimit ≤ nearestRank n d) : ofRatio negative n d = .infinite negative := by
  simp only [ofRatio, Finite64.ofRatio?, dif_neg (Nat.not_lt.2 h)]

theorem ofRatio_ne_nan (negative : Bool) (n d : Nat) : ofRatio negative n d ≠ .nan := by
  unfold ofRatio
  split
  · exact nofun
  · exact nofun

end Binary64

namespace Decimal

open Chars (tenTo)

theorem tenTo_ne_zero (k : Nat) : tenTo k ≠ 0 := Nat.ne_of_gt (Nat.pow_pos (by decide))

/-- A text without the mark of an exponent is taken for an exponent only if it is empty. -/
theorem eq_nil_of_exponentOf? {s : List Char} {e : Int} (hs : ∀ c ∈ s, c ≠ 'e' ∧ c ≠ 'E')
    (h : exponentOf? s = some e) : s = [] := by
  cases s with
  | nil => rfl
  | cons c r =>
    have hmark : ¬ (c = 'e' ∨ c = 'E') := not_or.2 (hs c List.mem_cons_self)
    have hnone : exponentOf? (c :: r) = none := if_neg hmark
    rw [hnone] at h
    cases h

/-- A decimal without exponent is made of ASCII digits and points. -/
theorem isDigit_of_ofChars? {s : List Char} {d : Decimal} (h : ofChars? s = some d)
    (hs : ∀ c ∈ s, c ≠ 'e' ∧ c ≠ 'E') : ∀ c ∈ s, Chars.isDigit c = true ∨ c = '.' := by
  have hsplit : s.takeWhile Chars.isDigit ++ s.dropWhile Chars.isDigit = s :=
    List.takeWhile_append_dropWhile
  have hrest : ∀ c ∈ s.dropWhile Chars.isDigit, c ≠ 'e' ∧ c ≠ 'E' := fun c hc =>
    hs c ((List.dropWhile_sublist _).subset hc)
  intro c hc
  rw [← hsplit] at hc
  rcases List.mem_append.1 hc with hwhole | hbehind
  · exact .inl (List.mem_takeWhile_imp hwhole)
  unfold ofChars? at h
  simp only [Chars.takeDigits_eq] at h
  split at h
  · next r hpoint =>
    -- a point, digits, and the end
    split at h
    · cases h
    · obtain ⟨e, he, -⟩ := Option.map_eq_some_iff.1 h
      rw [hpoint] at hbehind hrest
      have hnil : r.dropWhile Chars.isDigit = [] := by
        apply eq_nil_of_exponentOf? _ he
        intro x hx
        exact hrest x (List.mem_cons_of_mem _ ((List.dropWhile_sublist _).subset hx))
      rcases List.mem_cons.1 hbehind with hdot | hfraction
      · exact .inr hdot
      · exact .inl (List.dropWhile_eq_nil_iff.1 hnil c hfraction)
  · -- the end right away
    split at h
    · cases h
    · obtain ⟨e, he, -⟩ := Option.map_eq_some_iff.1 h
      rw [eq_nil_of_exponentOf? hrest he] at hbehind
      cases hbehind

theorem tenTo_add (j k : Nat) : tenTo (j + k) = tenTo j * tenTo k := Nat.pow_add 10 j k

theorem tenTo_le {j k : Nat} (h : j ≤ k) : tenTo j ≤ tenTo k := Nat.pow_le_pow_right (by decide) h

/-- A decimal of so many digits is above the greatest finite number. -/
theorem rankLimit_le_nearestRank {n k : Nat} (h : tenTo (400 + k) ≤ n) :
    Finite64.rankLimit ≤ nearestRank n (tenTo k) := by
  have hhuge : Finite64.rankLimit ≤ nearestRank (tenTo 400) 1 := by decide +kernel
  rw [tenTo_add, ← Nat.mul_one n] at h
  exact Nat.le_trans hhuge (nearestRank_le_of_le Nat.one_ne_zero (tenTo_ne_zero k) h)

/-- A decimal below all positive numbers is rounded to zero. -/
theorem nearestRank_eq_zero {n k : Nat} (h : n * tenTo 400 ≤ tenTo k) :
    nearestRank n (tenTo k) = 0 := by
  have htiny : nearestRank 1 (tenTo 400) = 0 := by decide +kernel
  rw [← Nat.one_mul (tenTo k)] at h
  have hle := nearestRank_le_of_le (tenTo_ne_zero k) (tenTo_ne_zero 400) h
  rw [htiny] at hle
  exact Nat.le_zero.1 hle

/-- **The cut-offs by size do not change what a decimal is rounded to.** -/
theorem toBinary64_neg (negative : Bool) (n k : Nat) :
    toBinary64 negative ⟨n, -(k : Int)⟩ = Binary64.ofRatio negative n (tenTo k) := by
  unfold toBinary64
  split
  · next hzero =>
    -- zero is rounded to zero whatever it is divided by
    obtain rfl : n = 0 := hzero
    have hrank : nearestRank 0 1 = nearestRank 0 (tenTo k) := by
      rw [nearestRank, nearestRank, if_pos rfl, if_pos rfl]
    exact Binary64.ofRatio_eq_of_nearestRank_eq hrank
  · next hpositive =>
    have hdigits : n < tenTo (Chars.digits n).length := by
      have hlt := Chars.ofDigits_lt (Chars.isDigit_of_mem_digits n)
      rwa [Chars.ofDigits_digits] at hlt
    have hlong : ∀ {width : Nat}, 0 < width → width < (Chars.digits n).length →
        tenTo width ≤ n := by
      intro width hwidth hlength
      apply Nat.le_of_not_lt
      intro hlt
      have hle := Chars.length_digits_le hwidth hlt
      omega
    simp only
    split
    · next hhuge =>
      -- too many digits before the point: the quotient is past the largest number
      have hmany : tenTo (400 + k) ≤ n := hlong (by omega) (by omega)
      exact (Binary64.ofRatio_eq_infinite (rankLimit_le_nearestRank hmany)).symm
    split
    · next htiny =>
      -- too many zeros behind the point: the quotient is below half of the smallest number
      have hfew : n * tenTo 400 ≤ tenTo k := calc
        n * tenTo 400 ≤ tenTo (Chars.digits n).length * tenTo 400 :=
          Nat.mul_le_mul_right _ (Nat.le_of_lt hdigits)
        _ = tenTo ((Chars.digits n).length + 400) := (tenTo_add _ _).symm
        _ ≤ tenTo k := tenTo_le (by omega)
      exact Binary64.ofRatio_eq_of_nearestRank_eq (nearestRank_eq_zero hfew).symm
    split
    · next hwhole =>
      obtain rfl : k = 0 := by omega
      exact congrArg₂ (Binary64.ofRatio negative) (Nat.mul_one n) rfl
    · rw [Int.neg_neg, Int.toNat_natCast]

end Decimal

/-! ## Numerals -/

/-- An optional minus sign, digits of a kind (`AreDigits`), and optionally a point and more such
digits. -/
structure Numeral (digit : Char → Bool) where
  negative : Bool
  whole : List Char
  fraction : Option (List Char)
  whole_digits : Chars.AreDigits digit whole
  fraction_digits : ∀ f ∈ fraction, Chars.AreDigits digit f

namespace Numeral

open Chars (isDigit isDecimalDigit)

variable {digit : Char → Bool}

/-- The point and the digits behind it. -/
def tail : Option (List Char) → List Char
  | some f => '.' :: f
  | none => []

/-- The text without its sign. -/
def unsigned (n : Numeral digit) : List Char := n.whole ++ tail n.fraction

/-- The text as characters. -/
def chars (n : Numeral digit) : List Char := if n.negative then '-' :: n.unsigned else n.unsigned

/-- The text. -/
def text (n : Numeral digit) : String := String.ofList n.chars

/-- The number nearest to what the numeral denotes. -/
def value (n : Numeral isDigit) : Binary64 :=
  let places := n.fraction.getD []
  Binary64.ofRatio n.negative (Chars.ofDigits (n.whole ++ places)) (Chars.tenTo places.length)

/-- The same numeral with its digits taken as digits of another kind. -/
def recast (n : Numeral digit) {kind : Char → Bool}
    (h : ∀ c ∈ n.unsigned, digit c = true → kind c = true) : Numeral kind where
  negative := n.negative
  whole := n.whole
  fraction := n.fraction
  whole_digits := n.whole_digits.imp fun c hc => h c (List.mem_append_left _ hc)
  fraction_digits := fun f hf => (n.fraction_digits f hf).imp fun c hc =>
    h c (List.mem_append_right _ (by rw [hf]; exact List.mem_cons_of_mem _ hc))

/-- The same numeral among those with digits of all scripts. -/
def widen (n : Numeral isDigit) : Numeral isDecimalDigit :=
  n.recast fun c _ => Chars.isDecimalDigit_of_isDigit c

/-- A numeral begins with a digit, after its sign. -/
theorem exists_unsigned_eq_cons (n : Numeral digit) :
    ∃ c s, n.unsigned = c :: s ∧ digit c = true := by
  obtain ⟨c, r, hwhole⟩ := List.exists_cons_of_ne_nil n.whole_digits.1
  refine ⟨c, r ++ tail n.fraction, ?_, n.whole_digits.2 c (by simp [hwhole])⟩
  rw [unsigned, hwhole, List.cons_append]

/-- After its sign a numeral is made of digits and points. -/
theorem mem_unsigned (n : Numeral digit) : ∀ c ∈ n.unsigned, digit c = true ∨ c = '.' := by
  intro c hc
  rcases List.mem_append.1 hc with hwhole | htail
  · exact .inl (n.whole_digits.2 c hwhole)
  · cases hfraction : n.fraction with
    | none =>
      rw [hfraction] at htail
      cases htail
    | some f =>
      rw [hfraction] at htail
      rcases List.mem_cons.1 htail with hdot | hf
      · exact .inr hdot
      · exact .inl ((n.fraction_digits f hfraction).2 c hf)

/-! ### Admitting -/

theorem isUnsignedNumeral_unsigned (n : Numeral isDecimalDigit) :
    Json.isUnsignedNumeral n.unsigned = true := by
  obtain ⟨hne, hwhole⟩ := n.whole_digits
  cases hfraction : n.fraction with
  | none =>
    simp [unsigned, hfraction, tail, Json.isUnsignedNumeral, Json.takeDecimalDigits,
      List.takeWhile_eq_self_iff.2 hwhole, List.dropWhile_eq_nil_iff.2 hwhole, hne]
  | some f =>
    obtain ⟨hf, hdigits⟩ := n.fraction_digits f hfraction
    have hdot : isDecimalDigit '.' = false := by decide
    simpa [unsigned, hfraction, tail, Json.isUnsignedNumeral, Json.takeDecimalDigits,
      List.takeWhile_append_of_pos hwhole, List.dropWhile_append_of_pos hwhole, hdot, hne, hf]
      using hdigits

theorem exists_unsigned_eq (negative : Bool) {s : List Char}
    (h : Json.isUnsignedNumeral s = true) :
    ∃ n : Numeral isDecimalDigit, n.negative = negative ∧ n.unsigned = s := by
  have hsplit : s.takeWhile isDecimalDigit ++ s.dropWhile isDecimalDigit = s :=
    List.takeWhile_append_dropWhile
  simp only [Json.isUnsignedNumeral, Json.takeDecimalDigits, Bool.and_eq_true,
    Bool.not_eq_true', List.isEmpty_eq_false_iff] at h
  obtain ⟨hne, hrest⟩ := h
  have hwhole : Chars.AreDigits isDecimalDigit (s.takeWhile isDecimalDigit) :=
    ⟨hne, fun c hc => List.mem_takeWhile_imp hc⟩
  split at hrest
  · next hnil =>
    rw [hnil] at hsplit
    exact ⟨⟨negative, _, none, hwhole, by simp⟩, rfl, hsplit⟩
  · next f hdot =>
    rw [Bool.and_eq_true, Bool.not_eq_true', List.isEmpty_eq_false_iff, List.all_eq_true] at hrest
    rw [hdot] at hsplit
    refine ⟨⟨negative, _, some f, hwhole, ?_⟩, rfl, hsplit⟩
    intro g hg
    obtain rfl := Option.some.inj hg
    exact hrest
  · cases hrest

end Numeral

namespace Json

open Chars (isDigit isDecimalDigit)

/-- **The pattern admits the numerals in decimal digits** of any script: `isNumeral` decides
whether there is a `Numeral`. -/
theorem isNumeral_iff {s : List Char} :
    isNumeral s = true ↔ ∃ n : Numeral isDecimalDigit, n.chars = s := by
  constructor
  · intro h
    unfold isNumeral at h
    split at h
    · next r =>
      obtain ⟨n, hnegative, hunsigned⟩ := Numeral.exists_unsigned_eq true h
      exact ⟨n, by rw [Numeral.chars, if_pos hnegative, hunsigned]⟩
    · obtain ⟨n, hnegative, hunsigned⟩ := Numeral.exists_unsigned_eq false h
      exact ⟨n, by rw [Numeral.chars, if_neg (by simp [hnegative]), hunsigned]⟩
  · rintro ⟨n, rfl⟩
    have hadmitted := n.isUnsignedNumeral_unsigned
    by_cases hnegative : n.negative = true
    · rw [Numeral.chars, if_pos hnegative]
      exact hadmitted
    · obtain ⟨c, s, hs, hc⟩ := n.exists_unsigned_eq_cons
      rw [Numeral.chars, if_neg hnegative]
      rw [hs] at hadmitted ⊢
      unfold isNumeral
      split
      · next heq =>
        -- a minus sign is no digit
        obtain ⟨rfl, -⟩ := List.cons.inj heq
        cases hc
      · exact hadmitted

end Json

namespace Numeral

open Chars (isDigit isDecimalDigit)

/-! ### Reading -/

theorem ofUnsignedChars?_unsigned (negative : Bool) (n : Numeral isDecimalDigit) :
    Binary64.ofUnsignedChars? negative n.unsigned =
      (Decimal.ofChars? n.unsigned).map (Decimal.toBinary64 negative) := by
  obtain ⟨c, s, hs, hc⟩ := n.exists_unsigned_eq_cons
  have hinf : Chars.sameIgnoringCase (c :: s) "inf".toList = false :=
    Chars.sameIgnoringCase_of_isDecimalDigit hc (by decide)
  have hinfinity : Chars.sameIgnoringCase (c :: s) "infinity".toList = false :=
    Chars.sameIgnoringCase_of_isDecimalDigit hc (by decide)
  have hnan : Chars.sameIgnoringCase (c :: s) "nan".toList = false :=
    Chars.sameIgnoringCase_of_isDecimalDigit hc (by decide)
  unfold Binary64.ofUnsignedChars?
  simp only [hs, hinf, hinfinity, hnan, Bool.or_self, Bool.false_eq_true, if_false]

/-- A numeral is read as a decimal with a sign. -/
theorem ofChars?_chars_eq (n : Numeral isDecimalDigit) :
    Binary64.ofChars? n.chars =
      (Decimal.ofChars? n.unsigned).map (Decimal.toBinary64 n.negative) := by
  by_cases hnegative : n.negative = true
  · rw [chars, if_pos hnegative, hnegative]
    exact n.ofUnsignedChars?_unsigned true
  · -- without a minus the first character is a digit, and so no sign
    obtain ⟨c, s, hs, hc⟩ := n.exists_unsigned_eq_cons
    rw [← n.ofUnsignedChars?_unsigned, chars, if_neg hnegative,
      Bool.eq_false_iff.2 hnegative, hs]
    unfold Binary64.ofChars?
    split
    · next heq =>
      obtain ⟨rfl, -⟩ := List.cons.inj heq
      cases hc
    · next heq =>
      obtain ⟨rfl, -⟩ := List.cons.inj heq
      cases hc
    · rfl

theorem ofChars?_unsigned (n : Numeral isDigit) :
    Decimal.ofChars? n.unsigned =
      some ⟨Chars.ofDigits (n.whole ++ n.fraction.getD []),
        -((n.fraction.getD []).length : Int)⟩ := by
  obtain ⟨hne, hwhole⟩ := n.whole_digits
  unfold Decimal.ofChars? unsigned
  cases hfraction : n.fraction with
  | none =>
    have htake := Chars.takeDigits_eq_self hwhole
    simp [tail, htake, hne, Decimal.exponentOf?]
  | some f =>
    obtain ⟨-, hf⟩ := n.fraction_digits f hfraction
    have htake : Chars.takeDigits (n.whole ++ '.' :: f) = (n.whole, '.' :: f) :=
      Chars.takeDigits_append hwhole fun c hc => Option.some.inj hc ▸ rfl
    have hrest := Chars.takeDigits_eq_self hf
    simp [tail, htake, hrest, hne, Decimal.exponentOf?]

/-- **A numeral in ASCII digits is read as the number nearest to its value** by
`Binary64.ofChars?`. -/
theorem ofChars?_chars (n : Numeral isDigit) : Binary64.ofChars? n.chars = some n.value := by
  have hread : Binary64.ofChars? n.chars =
      (Decimal.ofChars? n.unsigned).map (Decimal.toBinary64 n.negative) := n.widen.ofChars?_chars_eq
  rw [hread, ofChars?_unsigned, Option.map_some, Decimal.toBinary64_neg]
  rfl

/-- **A numeral that is read at all is one in ASCII digits.** -/
theorem exists_ascii {n : Numeral isDecimalDigit} {x : Binary64}
    (h : Binary64.ofChars? n.chars = some x) :
    ∃ m : Numeral isDigit, m.chars = n.chars ∧ m.value = x := by
  rw [ofChars?_chars_eq] at h
  obtain ⟨d, hd, -⟩ := Option.map_eq_some_iff.1 h
  have hmarks : ∀ c ∈ n.unsigned, c ≠ 'e' ∧ c ≠ 'E' := by
    intro c hc
    rcases n.mem_unsigned c hc with hdigit | rfl
    · refine ⟨?_, ?_⟩
      · rintro rfl
        cases hdigit
      · rintro rfl
        cases hdigit
    · decide
  -- a digit that is read is no point
  have hascii : ∀ c ∈ n.unsigned, isDecimalDigit c = true → isDigit c = true := by
    intro c hc hdigit
    rcases Decimal.isDigit_of_ofChars? hd hmarks c hc with hread | rfl
    · exact hread
    · cases hdigit
  have hsame : (n.recast hascii).chars = n.chars := rfl
  refine ⟨n.recast hascii, hsame, Option.some.inj ?_⟩
  rw [← ofChars?_chars, hsame, ofChars?_chars_eq, h]

end Numeral

/-! ## Values that count as numbers -/

namespace Json

open Chars (isDigit)

/-- A value counts as a number: a number does, and so does a text that is a `Numeral` in ASCII
digits. -/
inductive CountsAs : Json → Binary64 → Prop
  | int (n : Int) : CountsAs (.int n) (Binary64.ofInt n)
  | float (x : Finite64) : CountsAs (.float x) (.finite x)
  | numeral (n : Numeral isDigit) : CountsAs (.string n.text) n.value

theorem toNumber?_string_eq_some_iff {s : String} {x : Binary64} :
    (string s).toNumber? = some x ↔ ∃ n : Numeral isDigit, n.text = s ∧ n.value = x := by
  show (if isNumeral s.toList = true then Binary64.ofChars? s.toList else none) = some x ↔ _
  constructor
  · intro h
    split at h
    · next hadmitted =>
      obtain ⟨n, hn⟩ := isNumeral_iff.1 hadmitted
      rw [← hn] at h
      obtain ⟨m, hm, hvalue⟩ := Numeral.exists_ascii h
      refine ⟨m, ?_, hvalue⟩
      rw [Numeral.text, hm, hn, String.ofList_toList]
    · cases h
  · rintro ⟨n, rfl, rfl⟩
    have hadmitted : isNumeral n.chars = true := isNumeral_iff.2 ⟨n.widen, rfl⟩
    rw [Numeral.text, String.toList_ofList, if_pos hadmitted]
    exact n.ofChars?_chars

/-- **Which values count as numbers**, and as which: `toNumber?` against `CountsAs`. -/
theorem toNumber?_eq_some_iff {v : Json} {x : Binary64} :
    v.toNumber? = some x ↔ CountsAs v x := by
  constructor
  · intro h
    cases v with
    | null | bool | array | object => cases h
    | int n =>
      obtain rfl := Option.some.inj h
      exact .int n
    | float y =>
      obtain rfl := Option.some.inj h
      exact .float y
    | string s =>
      obtain ⟨n, rfl, rfl⟩ := toNumber?_string_eq_some_iff.1 h
      exact .numeral n
  · intro h
    cases h with
    | int | float => rfl
    | numeral n => exact toNumber?_string_eq_some_iff.2 ⟨n, rfl, rfl⟩

/-- What counts as a number is one. -/
theorem CountsAs.ne_nan {v : Json} {x : Binary64} (h : CountsAs v x) : x ≠ .nan := by
  cases h with
  | int n => exact Binary64.ofRatio_ne_nan _ _ _
  | float x => exact nofun
  | numeral n => exact Binary64.ofRatio_ne_nan _ _ _

end Json

end RestCase
