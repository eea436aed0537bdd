/-
# RestCase.Chars.Digits — decimal digits

`Chars.digits` writes a natural number in decimal without leading zeros, and `Chars.ofDigits` reads
it back (`ofDigits_digits`).  `Chars.takeDigits` is the longest run of digits in front of a text
(`takeDigits_append`), and `Text.toNatUpTo?` reads a number that must not pass a bound.
-/
import RestCase.Chars.Basic

namespace RestCase.Chars

/-! ## Writing -/

/-- The character of a digit below ten. -/
def digitChar (d : Nat) : Char := Char.ofNat (48 + d)

/-- The decimal digits of a number, most significant first, without leading zeros; `ofDigits`
reads them back. -/
def digits (n : Nat) : List Char :=
  if n < 10 then [digitChar n] else digits (n / 10) ++ [digitChar (n % 10)]
termination_by n

/-- The decimal text of an integer; a minus sign in front of a negative one. -/
def intDigits (n : Int) : List Char :=
  if n < 0 then '-' :: digits n.natAbs else digits n.natAbs

/-- Upper limit of what fits an unsigned 64-bit word, itself included. -/
def maxWord64 : Nat := 0xFFFFFFFFFFFFFFFF

/-- Ten to a power. -/
def tenTo (e : Nat) : Nat := Nat.pow 10 e

/-! ## Reading -/

/-- The value of one digit. -/
def digitValue (c : Char) : Nat := c.toNat - 48

/-- The number that a list of digits denotes. -/
def ofDigits (s : List Char) : Nat := s.foldl (fun n c => n * 10 + digitValue c) 0

/-- The longest run of digits in front, and the rest. -/
def takeDigits : List Char → List Char × List Char
  | [] => ([], [])
  | c :: r => if isDigit c then ((c :: (takeDigits r).1), (takeDigits r).2) else ([], c :: r)

/-- The number that digits in base `base` denote; at least one digit, nothing else. -/
def ofRadix? (base : Nat) (s : List Char) : Option Nat :=
  if s.isEmpty then none
  else s.foldl (fun acc c => acc.bind fun n =>
    if isHexDigit c && hexValue c < base then some (n * base + hexValue c) else none) (some 0)

/-! ## Reading what was written -/

theorem digitValue_digitChar {d : Nat} (h : d < 10) : digitValue (digitChar d) = d :=
  (by decide : ∀ d, d < 10 → digitValue (digitChar d) = d) d h

theorem isDigit_digitChar {d : Nat} (h : d < 10) : isDigit (digitChar d) = true :=
  (by decide : ∀ d, d < 10 → isDigit (digitChar d) = true) d h

theorem ofDigits_append_singleton (s : List Char) (c : Char) :
    ofDigits (s ++ [c]) = ofDigits s * 10 + digitValue c := by
  simp [ofDigits, List.foldl_append]

theorem ofDigits_digits (n : Nat) : ofDigits (digits n) = n := by
  rw [digits]
  split
  · next h => simp [ofDigits, digitValue_digitChar h]
  · have := ofDigits_digits (n / 10)
    rw [ofDigits_append_singleton, this, digitValue_digitChar (by omega)]
    omega
termination_by n
decreasing_by omega

theorem isDigit_of_mem_digits (n : Nat) : ∀ c ∈ digits n, isDigit c = true := by
  rw [digits]
  split
  · next h =>
    intro c hc
    obtain rfl := List.mem_singleton.1 hc
    exact isDigit_digitChar h
  · intro c hc
    rcases List.mem_append.1 hc with hc | hc
    · exact isDigit_of_mem_digits (n / 10) c hc
    · obtain rfl := List.mem_singleton.1 hc
      exact isDigit_digitChar (by omega)
termination_by n
decreasing_by omega

theorem digits_ne_nil (n : Nat) : digits n ≠ [] := by
  rw [digits]; split <;> simp

theorem takeDigits_append {d r : List Char} (hd : ∀ c ∈ d, isDigit c = true)
    (hr : ∀ c ∈ r.head?, isDigit c = false) : takeDigits (d ++ r) = (d, r) := by
  induction d with
  | nil =>
    cases r with
    | nil => rfl
    | cons c r => simp [takeDigits, hr c (by simp)]
  | cons c d ih =>
    simp [takeDigits, hd c (by simp), ih fun x hx => hd x (by simp [hx])]

end RestCase.Chars

namespace RestCase.Text

/-- The decimal text of a natural number. -/
def ofNat (n : Nat) : String := String.ofList (Chars.digits n)

/-- The decimal text of an integer. -/
def ofInt (n : Int) : String := String.ofList (Chars.intDigits n)

/-- An unsigned number of at most `limit`, with an optional plus sign in front of the digits. -/
def toNatUpTo? (limit : Nat) (s : String) : Option Nat :=
  let body := match s.toList with
    | '+' :: r => r
    | r => r
  (Chars.ofRadix? 10 body).filter (· ≤ limit)

end RestCase.Text
