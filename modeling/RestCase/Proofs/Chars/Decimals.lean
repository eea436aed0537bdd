/-
# RestCase.Proofs.Chars.Decimals — decimal texts of numbers

What was written in decimal is read as the number again (`toNatUpTo?_trim_ofInt`), also by the
reader that takes a base (`ofRadix?_eq_ofDigits`), and also after the blanks around it were taken
off, of which it has none (`trim_eq_self`).  How many digits a number has, and how large so many
digits are, is said by `length_digits_le` and `ofDigits_lt`.
-/
import Mathlib.Algebra.Group.Nat.Defs
import RestCase.Chars.Digits

namespace RestCase.Chars

theorem isDigit_iff (c : Char) : isDigit c = true ↔ 48 ≤ c.toNat ∧ c.toNat ≤ 57 := by
  rw [isDigit, Bool.and_eq_true, decide_eq_true_eq, decide_eq_true_eq]
  exact Iff.rfl

theorem isBlank_of_isDigit {c : Char} (h : isDigit c = true) : isBlank c = false := by
  have hrange := (isDigit_iff c).1 h
  rw [Bool.eq_false_iff]
  intro hblank
  simp only [isBlank, Bool.or_eq_true, Bool.and_eq_true, decide_eq_true_eq, beq_iff_eq] at hblank
  omega

/-- A text without blanks is trimmed already. -/
theorem trim_eq_self {s : List Char} (h : ∀ c ∈ s, isBlank c = false) : trim s = s := by
  have hkeep : ∀ t : List Char, (∀ c ∈ t, isBlank c = false) → t.dropWhile isBlank = t := by
    intro t ht
    cases t with
    | nil => rfl
    | cons c t => exact List.dropWhile_cons_of_neg (by simp [ht c])
  have hreverse : ∀ c ∈ s.reverse, isBlank c = false := fun c hc => h c (List.mem_reverse.1 hc)
  rw [trim, trimStart, trimEnd, hkeep s h, hkeep _ hreverse, List.reverse_reverse]

/-- Decimal digits are read by `ofRadix?` as what they denote in base ten. -/
theorem ofRadix?_eq_ofDigits {s : List Char} (hs : s ≠ []) (h : ∀ c ∈ s, isDigit c = true) :
    ofRadix? 10 s = some (ofDigits s) := by
  have hfold : ∀ (t : List Char) (n : Nat), (∀ c ∈ t, isDigit c = true) →
      t.foldl (fun acc c => acc.bind fun n =>
        if isHexDigit c && hexValue c < 10 then some (n * 10 + hexValue c) else none) (some n) =
      some (t.foldl (fun n c => n * 10 + digitValue c) n) := by
    -- on the digits that are left, for any number read so far
    intro t
    induction t with
    | nil => intro n _; rfl
    | cons c t ih =>
      intro n ht
      have hc : isDigit c = true := ht c List.mem_cons_self
      have hvalue : hexValue c = digitValue c := by rw [hexValue, if_pos hc, digitValue]
      have hsmall : digitValue c < 10 := by
        have hrange := (isDigit_iff c).1 hc
        unfold digitValue
        omega
      rw [List.foldl_cons, List.foldl_cons, ← ih _ fun x hx => ht x (List.mem_cons_of_mem c hx)]
      simp [isHexDigit, hc, hvalue, hsmall]
  unfold ofRadix?
  rw [if_neg (by simpa using hs)]
  exact hfold s 0 h

/-- A number below a power of ten has no more digits than the power has zeros. -/
theorem length_digits_le {width n : Nat} (hwidth : 0 < width) (h : n < 10 ^ width) :
    (digits n).length ≤ width := by
  induction width generalizing n with
  | zero => exact absurd hwidth (Nat.lt_irrefl 0)
  | succ width ih =>
    rw [digits]
    split
    · exact hwidth
    · next hlarge =>
      have hquotient : n / 10 < 10 ^ width := by
        rw [Nat.pow_succ] at h
        omega
      have hpositive : 0 < width := by
        rcases Nat.eq_zero_or_pos width with rfl | hpos
        · rw [Nat.pow_zero] at hquotient
          omega
        · exact hpos
      have hle := ih hpositive hquotient
      rw [List.length_append, List.length_singleton]
      exact Nat.succ_le_succ hle

/-- A number is below the power of ten that its digits reach. -/
theorem ofDigits_lt {d : List Char} (hd : ∀ c ∈ d, isDigit c = true) :
    ofDigits d < 10 ^ d.length := by
  have hfold : ∀ (d : List Char) (n : Nat), (∀ c ∈ d, isDigit c = true) →
      d.foldl (fun n c => n * 10 + digitValue c) n < (n + 1) * 10 ^ d.length := by
    -- on the digits that are left, for any number read so far
    intro d
    induction d with
    | nil => intro n _; simp
    | cons c d ih =>
      intro n hd
      have hrange := (isDigit_iff c).1 (hd c List.mem_cons_self)
      have hstep : n * 10 + digitValue c + 1 ≤ (n + 1) * 10 := by
        unfold digitValue
        omega
      calc (c :: d).foldl (fun n c => n * 10 + digitValue c) n
          < (n * 10 + digitValue c + 1) * 10 ^ d.length :=
            ih _ fun x hx => hd x (List.mem_cons_of_mem c hx)
        _ ≤ (n + 1) * 10 * 10 ^ d.length := Nat.mul_le_mul_right _ hstep
        _ = (n + 1) * 10 ^ (c :: d).length := by
            rw [List.length_cons, Nat.pow_succ, Nat.mul_assoc, Nat.mul_comm 10]
  have h := hfold d 0 hd
  rwa [Nat.zero_add, Nat.one_mul] at h

end RestCase.Chars

namespace RestCase.Text

/-- **The decimal text of a number is read as the number** by `toNatUpTo?`, if it is within the
limit. -/
theorem toNatUpTo?_trim_ofInt {limit : Nat} {n : Int} (h₀ : 0 ≤ n) (h : n ≤ limit) :
    toNatUpTo? limit (trim (ofInt n)) = some n.toNat := by
  have hdigits : Chars.intDigits n = Chars.digits n.natAbs := by
    unfold Chars.intDigits
    rw [if_neg (by omega)]
  have hall := Chars.isDigit_of_mem_digits n.natAbs
  have htrim : Chars.trim (Chars.digits n.natAbs) = Chars.digits n.natAbs :=
    Chars.trim_eq_self fun c hc => Chars.isBlank_of_isDigit (hall c hc)
  have hplus : (Chars.digits n.natAbs).head? ≠ some '+' := by
    intro hhead
    cases hall '+' (List.mem_of_mem_head? hhead)
  have hread : Chars.ofRadix? 10 (Chars.digits n.natAbs) = some n.toNat := by
    rw [Chars.ofRadix?_eq_ofDigits (Chars.digits_ne_nil _) hall, Chars.ofDigits_digits]
    congr 1
    omega
  unfold toNatUpTo? trim ofInt
  rw [String.toList_ofList, String.toList_ofList, hdigits, htrim]
  split
  · next r hr =>
    rw [hr] at hplus
    exact absurd rfl hplus
  · show (Chars.ofRadix? 10 (Chars.digits n.natAbs)).filter (fun x => x ≤ limit) = some n.toNat
    have hlimit : n.toNat ≤ limit := by omega
    rw [hread]
    simp [hlimit]

end RestCase.Text
