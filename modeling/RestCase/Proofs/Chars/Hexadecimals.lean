/-
# RestCase.Proofs.Chars.Hexadecimals — hexadecimal texts of numbers

What was written in hexadecimal is read as the number again (`hexNumber_hexDigits`), and as many
digits as are read bound the number that they denote (`length_hexDigits_le`, `hexNumber_lt`).
-/
import Mathlib.Algebra.Ring.Nat
import Mathlib.Tactic.SplitIfs
import RestCase.Chars.Quoted

namespace RestCase.Chars

/-- A hexadecimal digit in lower case. -/
def lowerHex (d : Nat) : Char := Char.ofNat (if d < 10 then 48 + d else 87 + d)

theorem hexDigits_of_lt {n : Nat} (h : n < 16) : hexDigits n = [lowerHex n] := by
  rw [hexDigits, hexDigitsRev]
  simp [h, Nat.mod_eq_of_lt h, lowerHex]

theorem hexDigits_of_le {n : Nat} (h : 16 ≤ n) :
    hexDigits n = hexDigits (n / 16) ++ [lowerHex (n % 16)] := by
  rw [hexDigits, hexDigitsRev]
  simp [Nat.not_lt.2 h, lowerHex, hexDigits]

theorem lowerHex_spec {d : Nat} (h : d < 16) :
    isHexDigit (lowerHex d) = true ∧ hexValue (lowerHex d) = d :=
  (by decide : ∀ d < 16, isHexDigit (lowerHex d) = true ∧ hexValue (lowerHex d) = d) d h

/-- The value of hexadecimal digits. -/
def hexNumber (s : List Char) : Nat := s.foldl (fun n c => n * 16 + hexValue c) 0

theorem hexNumber_append_singleton (s : List Char) (c : Char) :
    hexNumber (s ++ [c]) = hexNumber s * 16 + hexValue c := by
  simp [hexNumber]

theorem hexDigits_ne_nil (n : Nat) : hexDigits n ≠ [] := by
  rcases Nat.lt_or_ge n 16 with h | h
  · simp [hexDigits_of_lt h]
  · simp [hexDigits_of_le h]

theorem isHexDigit_of_mem_hexDigits {n : Nat} {c : Char} (h : c ∈ hexDigits n) :
    isHexDigit c = true := by
  induction n using Nat.strongRecOn with
  | ind n ih =>
    rcases Nat.lt_or_ge n 16 with hn | hn
    · rw [hexDigits_of_lt hn, List.mem_singleton] at h
      exact h ▸ (lowerHex_spec hn).1
    · rw [hexDigits_of_le hn, List.mem_append, List.mem_singleton] at h
      rcases h with h | rfl
      · exact ih (n / 16) (by omega) h
      · exact (lowerHex_spec (Nat.mod_lt _ (by decide))).1

/-- The text of a number begins with a digit. -/
theorem exists_hexDigits_eq_cons (n : Nat) :
    ∃ c r, hexDigits n = c :: r ∧ isHexDigit c = true := by
  obtain ⟨c, r, hcr⟩ := List.exists_cons_of_ne_nil (hexDigits_ne_nil n)
  exact ⟨c, r, hcr, isHexDigit_of_mem_hexDigits (n := n) (hcr ▸ List.mem_cons_self)⟩

theorem hexNumber_hexDigits (n : Nat) : hexNumber (hexDigits n) = n := by
  induction n using Nat.strongRecOn with
  | ind n ih =>
    rcases Nat.lt_or_ge n 16 with hn | hn
    · rw [hexDigits_of_lt hn]
      simp [hexNumber, (lowerHex_spec hn).2]
    · rw [hexDigits_of_le hn, hexNumber_append_singleton, ih (n / 16) (by omega),
        (lowerHex_spec (Nat.mod_lt n (by decide))).2]
      omega

theorem length_hexDigits_le {n k : Nat} (h : n < 16 ^ (k + 1)) : (hexDigits n).length ≤ k + 1 := by
  induction k generalizing n with
  | zero => rw [hexDigits_of_lt (by simpa using h)]; exact Nat.le_refl _
  | succ k ih =>
    rcases Nat.lt_or_ge n 16 with hn | hn
    · rw [hexDigits_of_lt hn]
      exact Nat.succ_le_succ (Nat.zero_le _)
    · rw [hexDigits_of_le hn, List.length_append]
      have hquotient : n / 16 < 16 ^ (k + 1) :=
        Nat.div_lt_of_lt_mul (by rw [Nat.mul_comm, ← Nat.pow_succ]; exact h)
      exact Nat.succ_le_succ (ih hquotient)

theorem hexValue_lt (c : Char) : hexValue c < 16 := by
  unfold hexValue
  simp only [isDigit, Bool.and_eq_true, decide_eq_true_eq, Char.le_def, UInt32.le_iff_toNat_le]
  have hdigit : c.val.toNat ≤ '9'.val.toNat → c.toNat ≤ 57 := id
  have hlower : c.val.toNat ≤ 'f'.val.toNat → c.toNat ≤ 102 := id
  have hupper : c.val.toNat ≤ 'F'.val.toNat → c.toNat ≤ 70 := id
  split_ifs with h₁ h₂ h₃
  · have := hdigit h₁.2
    omega
  · have := hlower h₂.2
    omega
  · have := hupper h₃.2
    omega
  · decide

theorem hexNumber_lt (s : List Char) : hexNumber s < 16 ^ s.length := by
  suffices ∀ (s : List Char) (n : Nat),
      s.foldl (fun n c => n * 16 + hexValue c) n < (n + 1) * 16 ^ s.length by
    simpa [hexNumber] using this s 0
  intro s
  induction s with
  | nil => intro n; simp
  | cons c s ih =>
    intro n
    have hc := hexValue_lt c
    refine Nat.lt_of_lt_of_le (ih _) ?_
    rw [List.length_cons, Nat.pow_succ, Nat.mul_comm (16 ^ s.length), ← Nat.mul_assoc]
    refine Nat.mul_le_mul_right _ ?_
    show n * 16 + hexValue c + 1 ≤ (n + 1) * 16
    omega

end RestCase.Chars
