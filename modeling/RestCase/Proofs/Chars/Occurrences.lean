/-
# RestCase.Proofs.Chars.Occurrences — places taken from left to right

A search from left to right takes the first place that fits, goes on behind what stands there, and
so on to the end.  `LeftToRight` says this of any property of places and any width; the list of
places is then determined (`LeftToRight.unique`).  What a needle is found at in a text is one case
of it (`leftToRight_occurrences`).

A search may pass over some of the places that it takes, by a test made on each of them afterwards.
That is the same as a search for the places that pass the test, if none of these begins within a
place that does not (`LeftToRight.filter`).
-/
import Mathlib.Order.Bounds.Basic
import RestCase.Proofs.Chars.Search

namespace RestCase.Chars

/-- The first place from `start` on that has a property; `LeftToRight` goes from one to the next. -/
def FirstFrom (P : Nat → Prop) (start place : Nat) : Prop :=
  IsLeast {k | start ≤ k ∧ P k} place

/-- From `start` on, the places with a property are taken from left to right, and after each of them
the search goes on `width` characters further. -/
inductive LeftToRight (P : Nat → Prop) (width : Nat) : Nat → List Nat → Prop
  | none {start : Nat} (h : ∀ k, start ≤ k → ¬ P k) : LeftToRight P width start []
  | found {start place : Nat} {places : List Nat} (h : FirstFrom P start place)
      (hrest : LeftToRight P width (place + width) places) :
      LeftToRight P width start (place :: places)

section Search

variable {P Q : Nat → Prop} {width start later place : Nat} {places places' : List Nat}

theorem FirstFrom.not_of_lt (h : FirstFrom P start place) {k : Nat} (hk : start ≤ k)
    (hlt : k < place) : ¬ P k := fun hP => Nat.not_le.2 hlt (h.2 ⟨hk, hP⟩)

theorem firstFrom_iff :
    FirstFrom P start place ↔ start ≤ place ∧ P place ∧ ∀ k, start ≤ k → k < place → ¬ P k := by
  refine ⟨fun h => ⟨h.1.1, h.1.2, fun k hk hlt => h.not_of_lt hk hlt⟩, ?_⟩
  rintro ⟨hle, hP, hnone⟩
  exact ⟨⟨hle, hP⟩, fun k hk => Nat.not_lt.1 fun hlt => hnone k hk.1 hlt hk.2⟩

/-- A place that has the property is the first from itself on. -/
theorem FirstFrom.here (h : P start) : FirstFrom P start start :=
  firstFrom_iff.2 ⟨Nat.le_refl start, h, fun _ hk hlt => absurd hlt (Nat.not_lt.2 hk)⟩

/-- Before the next place there is only the place itself. -/
theorem not_of_lt_succ (h : ¬ P start) : ∀ k, start ≤ k → k < start + 1 → ¬ P k := by
  intro k hk hlt
  obtain rfl : k = start := Nat.le_antisymm (Nat.le_of_lt_succ hlt) hk
  exact h

/-- There is none from a place on if there is none up to a later place and none from there on. -/
theorem not_of_le (hnone : ∀ k, start ≤ k → k < later → ¬ P k) (h : ∀ k, later ≤ k → ¬ P k) :
    ∀ k, start ≤ k → ¬ P k := by
  intro k hk
  rcases Nat.lt_or_ge k later with hbefore | hafter
  · exact hnone k hk hbefore
  · exact h k hafter

/-- The first place does not change with a start before which there is none. -/
theorem FirstFrom.lower (h : FirstFrom P later place) (hle : start ≤ later)
    (hnone : ∀ k, start ≤ k → k < later → ¬ P k) : FirstFrom P start place := by
  refine firstFrom_iff.2 ⟨hle.trans h.1.1, h.1.2, fun k hk hlt => ?_⟩
  rcases Nat.lt_or_ge k later with hbefore | hafter
  · exact hnone k hk hbefore
  · exact h.not_of_lt hafter hlt

theorem LeftToRight.lower (h : LeftToRight P width later places) (hle : start ≤ later)
    (hnone : ∀ k, start ≤ k → k < later → ¬ P k) : LeftToRight P width start places := by
  cases h with
  | none h => exact .none (not_of_le hnone h)
  | found h hrest => exact .found (h.lower hle hnone) hrest

/-- **A search has one result**, since `FirstFrom` has. -/
theorem LeftToRight.unique (h : LeftToRight P width start places)
    (h' : LeftToRight P width start places') : places = places' := by
  induction h generalizing places' with
  | none hnone =>
    cases h' with
    | none => rfl
    | found hfirst => exact absurd hfirst.1.2 (hnone _ hfirst.1.1)
  | found hfirst _ ih =>
    cases h' with
    | none hnone => exact absurd hfirst.1.2 (hnone _ hfirst.1.1)
    | found hfirst' hrest' =>
      obtain rfl := IsLeast.unique hfirst hfirst'
      rw [ih hrest']

/-- **Places may be dropped after the search or before it**, if none that is kept begins within one
that is dropped. -/
theorem LeftToRight.filter {keep : Nat → Bool} (hQ : ∀ k, Q k ↔ P k ∧ keep k = true)
    (hapart : ∀ k l, P k → keep k = false → Q l → k ≤ l → k + width ≤ l)
    (h : LeftToRight P width start places) :
    LeftToRight Q width start (places.filter keep) := by
  induction h with
  | none hnone => exact .none fun k hk hq => hnone k hk ((hQ k).1 hq).1
  | @found start place places hfirst _ ih =>
    have hbefore : ∀ l, start ≤ l → l < place → ¬ Q l := fun l hl hlt hq =>
      hfirst.not_of_lt hl hlt ((hQ l).1 hq).1
    cases hkeep : keep place with
    | true =>
      rw [List.filter_cons_of_pos hkeep]
      exact .found (firstFrom_iff.2 ⟨hfirst.1.1, (hQ place).2 ⟨hfirst.1.2, hkeep⟩, hbefore⟩) ih
    | false =>
      -- none that is kept begins within a dropped place, so the search comes to the same from it on
      rw [List.filter_cons_of_neg (by rw [hkeep]; exact Bool.false_ne_true)]
      refine ih.lower (hfirst.1.1.trans (Nat.le_add_right place width)) fun l hl hlt hq => ?_
      rcases Nat.lt_or_ge l place with hlow | hhigh
      · exact hbefore l hl hlow hq
      · exact Nat.not_le.2 hlt (hapart place l hfirst.1.2 hkeep hq hhigh)

end Search

/-! ## Needles -/

/-- A needle stands in a text at a place. -/
def OccursAt (needle text : List Char) (place : Nat) : Prop := needle <+: text.drop place

section Needles

variable {needle text : List Char} {place : Nat}

/-- The characters of a needle are those of the text from its place on. -/
theorem OccursAt.getElem? (h : OccursAt needle text place) {i : Nat} (hi : i < needle.length) :
    text[place + i]? = needle[i]? := by
  obtain ⟨rest, hrest⟩ := h
  rw [← List.getElem?_drop, ← hrest, List.getElem?_append_left hi]

/-- A text is cut where a needle stands in it. -/
theorem OccursAt.exists_eq_append (h : OccursAt needle text place) (hne : needle ≠ []) :
    ∃ left right, text = left ++ needle ++ right ∧ left.length = place := by
  obtain ⟨right, hright⟩ := h
  refine ⟨text.take place, right, ?_, ?_⟩
  · rw [List.append_assoc, hright, List.take_append_drop]
  · rw [List.length_take, Nat.min_eq_left]
    by_contra hlong
    rw [List.drop_eq_nil_of_le (by omega)] at hright
    exact hne (List.append_eq_nil_iff.1 hright).1

/-- A search that has come to a place takes what `occurrencesFrom` counts from there on. -/
theorem leftToRight_occurrencesFrom (hne : needle ≠ []) {before rest : List Char}
    (htext : text = before ++ rest) (skip : Nat) :
    LeftToRight (OccursAt needle text) needle.length (before.length + skip)
      (occurrencesFrom needle skip before.length rest) := by
  -- `skip` characters of what is left still belong to the last place that was taken
  induction rest generalizing before skip with
  | nil =>
    have hend : LeftToRight (OccursAt needle text) needle.length (before.length + skip) [] := by
      refine .none fun k hk hoccurs => ?_
      have hlen : text.length = before.length := by rw [htext, List.append_nil]
      have hdrop : text.drop k = [] := List.drop_eq_nil_of_le (by omega)
      rw [OccursAt, hdrop] at hoccurs
      exact hne (List.prefix_nil.1 hoccurs)
    cases skip <;> exact hend
  | cons c r ih =>
    have htext' : text = (before ++ [c]) ++ r := htext.trans (List.append_cons before c r)
    have hlen : (before ++ [c]).length = before.length + 1 := List.length_append
    have hdrop : text.drop before.length = c :: r := by rw [htext, List.drop_left]
    cases skip with
    | succ skip =>
      have hrest := ih htext' skip
      rw [hlen] at hrest
      rw [occurrencesFrom]
      exact (Nat.add_right_comm before.length 1 skip) ▸ hrest
    | zero =>
      rw [occurrencesFrom]
      split
      · next hfits =>
        have hoccurs : OccursAt needle text before.length := by
          rw [OccursAt, hdrop]
          exact List.isPrefixOf_iff_prefix.1 hfits
        have hpos : 0 < needle.length := List.length_pos_iff.2 hne
        have hwidth : before.length + 1 + (needle.length - 1) = before.length + needle.length := by
          omega
        have hrest := ih htext' (needle.length - 1)
        rw [hlen, hwidth] at hrest
        exact .found (.here hoccurs) hrest
      · next hmiss =>
        have hrest := ih htext' 0
        rw [hlen] at hrest
        have hnone : ¬ OccursAt needle text before.length := by
          rw [OccursAt, hdrop, ← List.isPrefixOf_iff_prefix]
          exact hmiss
        exact hrest.lower (Nat.le_succ _) (not_of_lt_succ hnone)

/-- **The occurrences of a needle** are what a search for it takes: `LeftToRight` over the places
where it `OccursAt`. -/
theorem leftToRight_occurrences (hne : needle ≠ []) (text : List Char) :
    LeftToRight (OccursAt needle text) needle.length 0 (occurrences needle text) :=
  leftToRight_occurrencesFrom hne (List.nil_append text).symm 0

end Needles

end RestCase.Chars
