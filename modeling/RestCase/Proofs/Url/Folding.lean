/-
# RestCase.Proofs.Url.Folding — folding a character once is enough

The characters of a domain name are folded to the ones that they stand for.  No code point to which
the table folds is one that the table folds, and none of them has a rule of its own, so that what a
character stands for, stands for itself (`foldedChar_of_mem`).  Both facts are properties of the
table alone, checked once over its runs.
-/
import Mathlib.Tactic.SplitIfs
import RestCase.Url.Domain

namespace RestCase.Chars

/-! ## The table of foldings -/

/-- The code points to which the members of a run fold. -/
def FoldRun.images (r : FoldRun) : List Nat :=
  (List.range ((r.source.last - r.source.first) / r.source.step + 1)).map fun k =>
    r.target + k * r.source.step

theorem FoldRun.mem_images {r : FoldRun} {n : Nat} (h : r.source.mem n = true) :
    r.target + (n - r.source.first) ∈ r.images := by
  obtain ⟨-, hlast, hstep⟩ := (Run.mem_iff _ _).1 h
  have hdistance : (n - r.source.first) / r.source.step * r.source.step = n - r.source.first :=
    Nat.div_mul_cancel (Nat.dvd_of_mod_eq_zero hstep)
  refine List.mem_map.2 ⟨(n - r.source.first) / r.source.step, List.mem_range.2 ?_, by
    rw [hdistance]⟩
  exact Nat.lt_succ_of_le (Nat.div_le_div_right (Nat.sub_le_sub_right hlast _))

theorem FoldRun.bounds_of_mem_images {r : FoldRun} {m : Nat} (h : m ∈ r.images) :
    r.target ≤ m ∧ m ≤ r.target + (r.source.last - r.source.first) := by
  obtain ⟨k, hk, rfl⟩ := List.mem_map.1 h
  have hk' : k ≤ (r.source.last - r.source.first) / r.source.step :=
    Nat.le_of_lt_succ (List.mem_range.1 hk)
  exact ⟨Nat.le_add_right _ _, Nat.add_le_add_left
    (Nat.le_trans (Nat.mul_le_mul_right _ hk') (Nat.div_mul_le_self _ _)) _⟩

/-- Nothing to which one run folds is folded by another.  Runs that lie apart are told so by their
bounds, the others are gone through. -/
theorem foldRuns_apart : (foldRuns.all fun r => foldRuns.all fun q =>
    Nat.blt q.source.last r.target
      || Nat.blt (r.target + (r.source.last - r.source.first)) q.source.first
      || r.images.all fun m => !q.source.mem m) = true := by
  decide +kernel

theorem not_mem_of_mem_images {r q : FoldRun} {m : Nat} (hr : r ∈ foldRuns) (hq : q ∈ foldRuns)
    (h : m ∈ r.images) : q.source.mem m = false := by
  have happart := List.all_eq_true.1 (List.all_eq_true.1 foldRuns_apart r hr) q hq
  have hbounds := FoldRun.bounds_of_mem_images h
  rw [Bool.or_eq_true, Bool.or_eq_true, Nat.blt_eq, Nat.blt_eq] at happart
  rcases happart with (hbelow | habove) | hall
  · rw [Bool.eq_false_iff, ne_eq, Run.mem_iff]
    omega
  · rw [Bool.eq_false_iff, ne_eq, Run.mem_iff]
    omega
  · simpa using List.all_eq_true.1 hall m h

/-- A code point that the table changes goes to an image of the run that holds it. -/
theorem foldPoint_cases (n : Nat) :
    foldPoint n = n ∨ ∃ r ∈ foldRuns, r.source.mem n = true ∧ foldPoint n ∈ r.images := by
  unfold foldPoint
  cases hfind : foldRuns.find? (·.source.mem n) with
  | none => exact .inl rfl
  | some r =>
    have hmem : r.source.mem n = true := by simpa using List.find?_some hfind
    exact .inr ⟨r, List.mem_of_find?_eq_some hfind, hmem, FoldRun.mem_images hmem⟩

theorem foldPoint_of_mem_images {r : FoldRun} {m : Nat} (hr : r ∈ foldRuns) (h : m ∈ r.images) :
    foldPoint m = m := by
  have hnone : foldRuns.find? (·.source.mem m) = none :=
    List.find?_eq_none.2 fun q hq => by simp [not_mem_of_mem_images hr hq h]
  simp [foldPoint, hnone]

end RestCase.Chars

namespace RestCase.Url

open RestCase.Chars

/-! ## Characters of a name -/

/-- A code point to which no rule of names but the table applies, if it is not ASCII, and a
lower-case letter, if it is. -/
def isPlainPoint (m : Nat) : Bool :=
  if m < 0x80 then 97 ≤ m && m ≤ 122
  else decide m.isValidChar && !ignoredInDomain (Char.ofNat m) && m != 0x3002 && m != 0xff61 &&
    !(0xff01 ≤ m && m ≤ 0xff5e) && m != 0x130

/-- The full-width letters apart, which have a rule of their own, the table leads to code points
without one. -/
theorem foldRuns_plain : (foldRuns.all fun r =>
    (0xff01 ≤ r.source.first && r.source.last ≤ 0xff5e) || r.images.all isPlainPoint) = true := by
  decide +kernel

theorem toLower_of_ascii {n : Nat} (h : n < 0x80) :
    (Char.ofNat n).toLower.toNat < 0x80 ∧ (Char.ofNat n).toLower.toLower = (Char.ofNat n).toLower :=
  (by decide : ∀ n < 0x80, (Char.ofNat n).toLower.toNat < 0x80 ∧
    (Char.ofNat n).toLower.toLower = (Char.ofNat n).toLower) n h

theorem foldedChar_toLower {n : Nat} (h : n < 0x80) :
    foldedChar (Char.ofNat n).toLower = [(Char.ofNat n).toLower] := by
  rw [foldedChar_ascii (toLower_of_ascii h).1, (toLower_of_ascii h).2]

/-- A plain code point that the table leaves alone is a character that stands for itself. -/
theorem foldedChar_of_isPlainPoint {m : Nat} (h : isPlainPoint m = true) (hm : foldPoint m = m) :
    foldedChar (Char.ofNat m) = [Char.ofNat m] := by
  unfold isPlainPoint at h
  split at h
  next hascii =>
    have hlower : ∀ k < 0x80, 97 ≤ k → k ≤ 122 → (Char.ofNat k).toLower = Char.ofNat k := by decide
    rw [Bool.and_eq_true, decide_eq_true_eq, decide_eq_true_eq] at h
    rw [← hlower m hascii h.1 h.2, foldedChar_toLower hascii]
  next hascii =>
    simp only [Bool.and_eq_true, Bool.not_eq_true', decide_eq_true_eq, bne_iff_ne, ne_eq] at h
    obtain ⟨⟨⟨⟨⟨hvalid, hignored⟩, hstop⟩, hhalf⟩, hwide⟩, hdotted⟩ := h
    have hpoint : (Char.ofNat m).toNat = m := by
      unfold Char.ofNat
      rw [dif_pos hvalid]
      rfl
    unfold foldedChar
    simp [hpoint, hascii, hignored, hstop, hhalf, hwide, hdotted, hm]

/-- What a character of a name stands for, stands for itself. -/
theorem foldedChar_of_mem {c d : Char} (h : d ∈ foldedChar c) : foldedChar d = [d] := by
  have hself : foldedChar c = [c] → foldedChar d = [d] := fun heq => by
    rw [heq, List.mem_singleton] at h
    rw [h, heq]
  by_cases hascii : c.toNat < 0x80
  · rw [foldedChar_ascii hascii, List.mem_singleton] at h
    rw [h]
    simpa using foldedChar_toLower hascii
  · have hh := h
    unfold foldedChar at hh
    simp only [hascii, if_false] at hh
    split_ifs at hh with hignored hstop hwide hsigma hdotted
    · cases hh
    · obtain rfl := List.mem_singleton.1 hh
      rfl
    · rw [List.mem_singleton.1 hh]
      simp only [Bool.and_eq_true, decide_eq_true_eq] at hwide
      exact foldedChar_toLower (by omega)
    · refine hself ?_
      simp only [foldedChar, hignored, hsigma]
      rfl
    · simp only [List.mem_cons, List.not_mem_nil, or_false] at hh
      rcases hh with rfl | rfl
      · rfl
      · decide +kernel
    · rcases foldPoint_cases c.toNat with heq | ⟨r, hr, hmem, himage⟩
      · rw [heq, Char.ofNat_toNat, List.mem_singleton] at hh
        refine hself ?_
        unfold foldedChar
        simp [hascii, hignored, hstop, hwide, hsigma, hdotted, heq]
      · rw [List.mem_singleton.1 hh]
        have hplain := List.all_eq_true.1 foldRuns_plain r hr
        rw [Bool.or_eq_true] at hplain
        rcases hplain with hwide' | hplain
        · obtain ⟨hfirst, hlast, -⟩ := (Run.mem_iff _ _).1 hmem
          simp only [Bool.and_eq_true, decide_eq_true_eq] at hwide hwide'
          omega
        · exact foldedChar_of_isPlainPoint (List.all_eq_true.1 hplain _ himage)
            (foldPoint_of_mem_images hr himage)

end RestCase.Url
