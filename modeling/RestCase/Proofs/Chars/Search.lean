/-
# RestCase.Proofs.Chars.Search — what a search in a text finds

A text contains a needle exactly when the needle is an infix of it (`contains_iff`), and is cut
around the first place at which the needle stands (`splitFirst?_eq_some_iff`).

A search takes the first place that fits and goes on behind it, so what stands in one part of a text
can in principle hide what stands in the next.  It cannot where the two parts are kept apart by a
character that the needle does not have: then a search finds in the whole exactly what it finds in
the parts (`occurrencesFrom_append_cons`).

The readers of this library share three more facts: a run of characters ends before one that is not
of its kind (`takeWhile_run`, `dropWhile_run`), a text is parted at the last place of a mark
(`exists_last_of_mem`), and trimming takes off exactly the blanks around a core that ends with none
(`trim_append_append`).
-/
import Mathlib.Data.List.TakeWhile
import RestCase.Chars.Search

namespace RestCase.Chars

/-! ## The first occurrence -/

theorem splitFirst?_isSome_of_prefix {needle s : List Char} (h : needle <+: s) :
    (splitFirst? needle s).isSome = true := by
  cases s with
  | nil => simp [splitFirst?, List.prefix_nil.1 h]
  | cons c r => simp [splitFirst?, List.isPrefixOf_iff_prefix.2 h]

/-- **A text contains a needle** exactly when the needle is an infix of it: `Chars.contains`
decides `<:+:`. -/
theorem contains_iff {needle s : List Char} : contains needle s = true ↔ needle <:+: s := by
  unfold contains
  constructor
  · intro h
    obtain ⟨⟨a, b⟩, hab⟩ := Option.isSome_iff_exists.1 h
    exact ⟨a, b, (splitFirst?_eq_some hab).symm⟩
  · rintro ⟨a, b, rfl⟩
    -- the needle stands behind `a`, but a place inside `a` may fit already
    induction a with
    | nil => exact splitFirst?_isSome_of_prefix ⟨b, rfl⟩
    | cons c a ih =>
      rw [List.cons_append, List.cons_append, splitFirst?]
      split
      · rfl
      · rw [Option.isSome_map]
        exact ih

/-- A text is cut by `splitFirst?` at the needle if the first character of the needle is missing
before it. -/
theorem splitFirst?_append {c : Char} (n : List Char) {a : List Char} (h : c ∉ a) (b : List Char) :
    splitFirst? (c :: n) (a ++ (c :: n ++ b)) = some (a, b) := by
  induction a with
  | nil =>
    have hfits : (c :: n).isPrefixOf (c :: n ++ b) = true :=
      List.isPrefixOf_iff_prefix.2 (List.prefix_append _ b)
    rw [List.nil_append, List.cons_append, splitFirst?, ← List.cons_append, if_pos hfits,
      List.drop_left]
  | cons d a ih =>
    obtain ⟨hcd, hca⟩ := List.ne_and_not_mem_of_not_mem_cons h
    have hmiss : (c :: n).isPrefixOf (d :: (a ++ (c :: n ++ b))) = false := by
      simp [List.isPrefixOf, hcd]
    rw [List.cons_append, splitFirst?, hmiss, if_neg Bool.false_ne_true, ih hca]
    rfl

/-- A text without the first character of the needle does not have the needle. -/
theorem splitFirst?_eq_none {c : Char} (n : List Char) {s : List Char} (h : c ∉ s) :
    splitFirst? (c :: n) s = none := by
  rw [← Option.not_isSome_iff_eq_none]
  intro hsome
  obtain ⟨a, b, rfl⟩ := contains_iff.1 hsome
  simp at h

/-- A text is cut around the first place at which a needle stands, as `splitFirst?` does. -/
def CutFirst (needle text before after : List Char) : Prop :=
  text = before ++ needle ++ after ∧
    ∀ a b, text = a ++ needle ++ b → before.length ≤ a.length

theorem splitFirst?_eq_none_iff {needle s : List Char} :
    splitFirst? needle s = none ↔ ¬ needle <:+: s := by
  rw [← contains_iff, contains, Bool.not_eq_true, Option.isSome_eq_false_iff,
    Option.isNone_iff_eq_none]

theorem cutFirst_of_splitFirst? {needle s a b : List Char}
    (h : splitFirst? needle s = some (a, b)) : CutFirst needle s a b := by
  refine ⟨splitFirst?_eq_some h, ?_⟩
  induction s generalizing a b with
  | nil =>
    have hlength := splitFirst?_length h
    simp only [List.length_nil] at hlength
    exact fun _ _ _ => by omega
  | cons c r ih =>
    intro x y hxy
    rw [splitFirst?] at h
    split at h
    · obtain ⟨rfl, -⟩ := Prod.mk.inj (Option.some.inj h)
      exact Nat.zero_le _
    · next hmiss =>
      obtain ⟨⟨a', b'⟩, hr, he⟩ := Option.map_eq_some_iff.1 h
      obtain ⟨rfl, rfl⟩ := Prod.mk.inj he
      cases x with
      | nil =>
        -- the needle does not stand at the very beginning
        refine absurd (List.isPrefixOf_iff_prefix.2 ⟨y, ?_⟩) hmiss
        rw [hxy, List.nil_append]
      | cons d x =>
        exact Nat.succ_le_succ (ih hr x y (List.cons.inj hxy).2)

/-- There is one way to cut a text at the first place of a needle. -/
theorem CutFirst.unique {needle s a b a' b' : List Char} (h : CutFirst needle s a b)
    (h' : CutFirst needle s a' b') : a = a' ∧ b = b' := by
  obtain ⟨hs, hfirst⟩ := h
  obtain ⟨hs', hfirst'⟩ := h'
  have hlength : a.length = a'.length :=
    Nat.le_antisymm (hfirst a' b' hs') (hfirst' a b hs)
  rw [List.append_assoc] at hs hs'
  obtain ⟨ha, hrest⟩ := List.append_inj (hs.symm.trans hs') hlength
  exact ⟨ha, List.append_cancel_left hrest⟩

/-- **A text is cut around the first place of the needle**: `splitFirst?` gives the one
`CutFirst`. -/
theorem splitFirst?_eq_some_iff {needle s a b : List Char} :
    splitFirst? needle s = some (a, b) ↔ CutFirst needle s a b := by
  refine ⟨cutFirst_of_splitFirst?, fun h => ?_⟩
  cases hsplit : splitFirst? needle s with
  | none => exact absurd ⟨a, b, h.1.symm⟩ (splitFirst?_eq_none_iff.1 hsplit)
  | some p =>
    obtain ⟨rfl, rfl⟩ := h.unique (cutFirst_of_splitFirst? hsplit)
    rfl

/-- A needle does not stand before its first place. -/
theorem CutFirst.not_infix {needle s a b : List Char} (h : CutFirst needle s a b)
    (hne : needle ≠ []) : ¬ needle <:+: a := by
  rintro ⟨x, y, rfl⟩
  have hle := h.2 x (y ++ needle ++ b) (by rw [h.1]; simp)
  have hpos := List.length_pos_iff.2 hne
  simp only [List.length_append] at hle
  omega

/-- What stands behind the first place of a needle has no part in its being the first. -/
theorem CutFirst.change {needle s a b : List Char} (h : CutFirst needle s a b) (b' : List Char) :
    CutFirst needle (a ++ needle ++ b') a b' := by
  obtain ⟨rfl, hfirst⟩ := h
  refine ⟨rfl, fun x y hxy => Nat.not_lt.1 fun hshort => ?_⟩
  have hlength : (x ++ needle).length ≤ (a ++ needle).length := by
    simp only [List.length_append]
    omega
  obtain ⟨z, hz⟩ := List.prefix_of_prefix_length_le ⟨y, hxy.symm⟩
    (List.prefix_append (a ++ needle) b') hlength
  have hle := hfirst x (z ++ b) (by rw [← hz, List.append_assoc])
  omega

/-! ## All occurrences -/

/-- A needle does not reach beyond a character that it does not have. -/
theorem prefix_append_cons_iff {needle x y : List Char} {q : Char} (h : q ∉ needle) :
    needle <+: x ++ q :: y ↔ needle <+: x := by
  constructor
  · intro hp
    rcases List.prefix_or_prefix_of_prefix hp (List.prefix_append x (q :: y)) with hx | ⟨t, rfl⟩
    · exact hx
    · -- a needle that is longer than `x` begins with `x` and then has `q`
      cases t with
      | nil => simp
      | cons d t =>
        have hd : d :: t <+: q :: y := (List.prefix_append_right_inj x).1 hp
        obtain ⟨rfl, -⟩ := List.cons_prefix_cons.1 hd
        simp at h
  · intro hx
    exact hx.trans (List.prefix_append x (q :: y))

/-- A needle without a character is in the text on one side of that character or on the other. -/
theorem infix_append_cons_iff {needle x y : List Char} {q : Char} (hne : needle ≠ [])
    (h : q ∉ needle) : needle <:+: x ++ q :: y ↔ needle <:+: x ∨ needle <:+: y := by
  induction x with
  | nil =>
    have hmiss : ¬ needle <+: q :: y := fun hp =>
      hne (List.prefix_nil.1 ((prefix_append_cons_iff (x := []) h).1 hp))
    have hnil : ¬ needle <:+: [] := fun hi => hne (List.infix_nil.1 hi)
    simp [List.infix_cons_iff, hmiss, hnil]
  | cons c x ih =>
    have hfront : needle <+: c :: (x ++ q :: y) ↔ needle <+: c :: x :=
      prefix_append_cons_iff (x := c :: x) h
    rw [List.cons_append, List.infix_cons_iff, List.infix_cons_iff, ih, hfront, or_assoc]

section Parts

variable {needle : List Char} {q : Char}

/-- **What is found in two parts of a text** (`occurrencesFrom`) that are kept apart by a character
which the needle does not have: the places in the first, and then those in the second. -/
theorem occurrencesFrom_append_cons (hne : needle ≠ []) (h : q ∉ needle) (x y : List Char)
    {skip : Nat} (hskip : skip ≤ x.length) (pos : Nat) :
    occurrencesFrom needle skip pos (x ++ q :: y) =
      occurrencesFrom needle skip pos x ++
        occurrencesFrom needle 0 (pos + x.length + 1) y := by
  induction x generalizing skip pos with
  | nil =>
    obtain rfl : skip = 0 := Nat.le_zero.1 hskip
    have hmiss : needle.isPrefixOf (q :: y) = false := by
      rw [Bool.eq_false_iff]
      intro hp
      have hnil := (prefix_append_cons_iff (x := []) h).1 (List.isPrefixOf_iff_prefix.1 hp)
      exact hne (List.prefix_nil.1 hnil)
    simp [occurrencesFrom, hmiss]
  | cons c x ih =>
    have hpos : pos + 1 + x.length + 1 = pos + (c :: x).length + 1 := by
      simp only [List.length_cons]
      omega
    cases skip with
    | succ skip =>
      rw [List.cons_append, occurrencesFrom, occurrencesFrom, ih (Nat.le_of_succ_le_succ hskip),
        hpos]
    | zero =>
      have hsame : needle.isPrefixOf (c :: (x ++ q :: y)) = needle.isPrefixOf (c :: x) := by
        rw [Bool.eq_iff_iff, List.isPrefixOf_iff_prefix, List.isPrefixOf_iff_prefix]
        exact prefix_append_cons_iff (x := c :: x) h
      rw [List.cons_append, occurrencesFrom, occurrencesFrom, hsame]
      split
      · next hp =>
        -- what is skipped lies in the first part with the needle
        have hlen := (List.isPrefixOf_iff_prefix.1 hp).length_le
        have hrest : needle.length - 1 ≤ x.length := by
          simp only [List.length_cons] at hlen
          omega
        rw [ih hrest, hpos, List.cons_append]
      · rw [ih (Nat.zero_le _), hpos]

/-- A search passes over a text without the first character of the needle. -/
theorem occurrencesFrom_append_of_not_mem {c : Char} (n : List Char) {x : List Char} (h : c ∉ x)
    (pos : Nat) (y : List Char) :
    occurrencesFrom (c :: n) 0 pos (x ++ y) = occurrencesFrom (c :: n) 0 (pos + x.length) y := by
  induction x generalizing pos with
  | nil => rfl
  | cons d x ih =>
    obtain ⟨hcd, hx⟩ := List.ne_and_not_mem_of_not_mem_cons h
    have hmiss : (c :: n).isPrefixOf (d :: (x ++ y)) = false := by
      simp [List.isPrefixOf, hcd]
    have hpos : pos + 1 + x.length = pos + (d :: x).length := Nat.add_right_comm pos 1 x.length
    rw [List.cons_append, occurrencesFrom, hmiss, if_neg Bool.false_ne_true, ih hx, hpos]

/-- A needle is found in a text exactly if it is somewhere in it. -/
theorem occurrencesFrom_eq_nil_iff (hne : needle ≠ []) (pos : Nat) (s : List Char) :
    occurrencesFrom needle 0 pos s = [] ↔ ¬ needle <:+: s := by
  induction s generalizing pos with
  | nil => simp [occurrencesFrom, hne]
  | cons c r ih =>
    rw [occurrencesFrom, List.infix_cons_iff, ← List.isPrefixOf_iff_prefix]
    split
    · next hp => simp [hp]
    · next hp => simp [hp, ih]

theorem mem_occurrencesFrom {skip pos i : Nat} {s : List Char}
    (h : i ∈ occurrencesFrom needle skip pos s) : pos ≤ i ∧ i < pos + s.length := by
  induction s generalizing skip pos with
  | nil => cases skip <;> simp [occurrencesFrom] at h
  | cons c r ih =>
    have hrest : ∀ {skip}, i ∈ occurrencesFrom needle skip (pos + 1) r →
        pos ≤ i ∧ i < pos + (c :: r).length := by
      intro skip hi
      obtain ⟨hle, hlt⟩ := ih hi
      simp only [List.length_cons]
      omega
    cases skip with
    | succ skip => exact hrest h
    | zero =>
      rw [occurrencesFrom] at h
      split at h
      · rcases List.mem_cons.1 h with rfl | h
        · simp
        · exact hrest h
      · exact hrest h

/-- Counting from another place moves all places. -/
theorem occurrencesFrom_eq_map (skip pos : Nat) (s : List Char) :
    occurrencesFrom needle skip pos s = (occurrencesFrom needle skip 0 s).map (pos + ·) := by
  induction s generalizing skip pos with
  | nil => cases skip <;> rfl
  | cons c r ih =>
    have hmove : ∀ skip, occurrencesFrom needle skip (pos + 1) r =
        (occurrencesFrom needle skip 1 r).map (pos + ·) := by
      intro skip
      rw [ih skip (pos + 1), ih skip 1, List.map_map]
      refine List.map_congr_left ?_
      intro i _
      exact Nat.add_assoc pos 1 i
    cases skip with
    | succ skip => exact hmove skip
    | zero =>
      rw [occurrencesFrom, occurrencesFrom]
      split
      · rw [hmove, List.map_cons]
        rfl
      · exact hmove 0

end Parts

/-! ## Runs of characters -/

section Runs

variable {p : Char → Bool} {run rest : List Char}

/-- A reader takes a run of characters up to one that is not of its kind; `takeWhile_take_run`
bounds the run. -/
theorem takeWhile_run (hrun : ∀ c ∈ run, p c = true) (hrest : ∀ c ∈ rest.head?, p c = false) :
    (run ++ rest).takeWhile p = run := by
  rw [List.takeWhile_append_of_pos hrun]
  cases rest with
  | nil => simp
  | cons c r => simp [hrest c rfl]

theorem dropWhile_run (hrun : ∀ c ∈ run, p c = true) (hrest : ∀ c ∈ rest.head?, p c = false) :
    (run ++ rest).dropWhile p = rest := by
  rw [List.dropWhile_append_of_pos hrun]
  cases rest with
  | nil => rfl
  | cons c r => simp [hrest c rfl]

/-- So does one that takes so many characters at most, if the run is no longer. -/
theorem takeWhile_take_run (hrun : ∀ c ∈ run, p c = true) (hrest : ∀ c ∈ rest.head?, p c = false)
    {width : Nat} (hwidth : run.length ≤ width) : ((run ++ rest).take width).takeWhile p = run := by
  rw [List.take_append, List.take_of_length_le hwidth]
  refine takeWhile_run hrun fun c hc => hrest c ?_
  rw [List.head?_take] at hc
  split at hc
  · cases hc
  · exact hc

end Runs

/-! ## The last mark -/

section LastMark

variable {mark : Char} {s tail : List Char}

/-- A text without the mark has no end behind it. -/
theorem afterLast_of_not_mem (h : mark ∉ s) : (s.reverse.takeWhile (· != mark)).reverse = s := by
  have hall : s.reverse.takeWhile (· != mark) = s.reverse :=
    List.takeWhile_eq_self_iff.2 fun c hc => by
      simpa using fun heq : c = mark => h (heq ▸ List.mem_reverse.1 hc)
  rw [hall, List.reverse_reverse]

/-- Behind the last mark stands what has no mark in it. -/
theorem afterLast_append (front : List Char) (h : mark ∉ tail) :
    ((front ++ mark :: tail).reverse.takeWhile (· != mark)).reverse = tail := by
  have hall : ∀ c ∈ tail.reverse, (c != mark) = true := fun c hc => by
    simpa using fun heq : c = mark => h (heq ▸ List.mem_reverse.1 hc)
  rw [List.reverse_append, List.reverse_cons, List.append_assoc,
    List.takeWhile_append_of_pos hall, List.singleton_append,
    List.takeWhile_cons_of_neg (by simp), List.append_nil, List.reverse_reverse]

/-- All but an end and the mark before it. -/
theorem take_append_mark (front : List Char) (mark : Char) (tail : List Char) :
    (front ++ mark :: tail).take ((front ++ mark :: tail).length - tail.length - 1) = front := by
  have hlength : (front ++ mark :: tail).length - tail.length - 1 = front.length := by
    rw [List.length_append, List.length_cons]
    omega
  rw [hlength, List.take_left]

/-- A text with the mark is parted at the last one, which is the first one from behind. -/
theorem exists_last_of_mem (h : mark ∈ s) : ∃ front tail, s = front ++ mark :: tail ∧
    mark ∉ tail := by
  obtain ⟨back, front, heq, hback⟩ := List.eq_append_cons_of_mem (List.mem_reverse.2 h)
  refine ⟨front.reverse, back.reverse, ?_, mt List.mem_reverse.1 hback⟩
  rw [← List.reverse_reverse s, heq]
  simp

end LastMark

/-! ## Trimming -/

/-- **Trimming takes off the blanks** around a core that begins and ends with none, as one that is
`Trimmed`. -/
theorem trim_append_append {before core after : List Char} {c d : Char}
    (hbefore : ∀ x ∈ before, isBlank x = true) (hafter : ∀ x ∈ after, isBlank x = true)
    (hhead : core.head? = some c) (hc : isBlank c = false) (hlast : core.getLast? = some d)
    (hd : isBlank d = false) : trim (before ++ core ++ after) = core := by
  obtain ⟨r, rfl⟩ := List.head?_eq_some_iff.1 hhead
  obtain ⟨s, hs⟩ := List.getLast?_eq_some_iff.1 hlast
  have hstart : trimStart (before ++ (c :: r) ++ after) = c :: r ++ after := by
    unfold trimStart
    rw [List.append_assoc, List.dropWhile_append_of_pos hbefore, List.cons_append,
      List.dropWhile_cons_of_neg (by rw [hc]; exact Bool.false_ne_true)]
  have hend : (c :: r ++ after).reverse = after.reverse ++ (d :: s.reverse) := by
    rw [hs, List.reverse_append, List.reverse_append]
    rfl
  have hafter' : ∀ x ∈ after.reverse, isBlank x = true := by
    intro x hx
    exact hafter x (List.mem_reverse.1 hx)
  unfold trim trimEnd
  rw [hstart, hend, List.dropWhile_append_of_pos hafter',
    List.dropWhile_cons_of_neg (by rw [hd]; exact Bool.false_ne_true), hs]
  simp

/-- A text that begins and ends with no blank is trimmed already. -/
theorem trim_of_ends {s : List Char} {c d : Char} (hhead : s.head? = some c)
    (hc : isBlank c = false) (hlast : s.getLast? = some d) (hd : isBlank d = false) :
    trim s = s := by
  have hnone : ∀ x ∈ ([] : List Char), isBlank x = true := by simp
  have h := trim_append_append hnone hnone hhead hc hlast hd
  simpa using h

/-- The text begins and ends with a character that is no blank. -/
def Trimmed (s : List Char) : Prop :=
  (∃ c, s.head? = some c ∧ isBlank c = false) ∧ ∃ d, s.getLast? = some d ∧ isBlank d = false

namespace Trimmed

variable {s t before after : List Char}

theorem ne_nil (h : Trimmed s) : s ≠ [] := by
  rintro rfl
  obtain ⟨⟨c, hc, -⟩, -⟩ := h
  cases hc

theorem trim_eq (h : Trimmed s) : trim s = s := by
  obtain ⟨⟨c, hhead, hc⟩, ⟨d, hlast, hd⟩⟩ := h
  exact trim_of_ends hhead hc hlast hd

/-- Blanks in front of it are trimmed. -/
theorem trim_append_left (h : Trimmed s) (hbefore : ∀ x ∈ before, isBlank x = true) :
    trim (before ++ s) = s := by
  obtain ⟨⟨c, hhead, hc⟩, ⟨d, hlast, hd⟩⟩ := h
  have htrim := trim_append_append hbefore (List.forall_mem_nil _) hhead hc hlast hd
  rwa [List.append_nil] at htrim

/-- Blanks behind it are trimmed. -/
theorem trim_append_right (h : Trimmed s) (hafter : ∀ x ∈ after, isBlank x = true) :
    trim (s ++ after) = s := by
  obtain ⟨⟨c, hhead, hc⟩, ⟨d, hlast, hd⟩⟩ := h
  exact trim_append_append (List.forall_mem_nil _) hafter hhead hc hlast hd

/-- What stands between two trimmed texts has no part in the trimming. -/
theorem append (hs : Trimmed s) (ht : Trimmed t) (between : List Char) :
    Trimmed (s ++ (between ++ t)) := by
  obtain ⟨⟨c, hhead, hc⟩, -⟩ := hs
  obtain ⟨-, ⟨d, hlast, hd⟩⟩ := ht
  refine ⟨⟨c, ?_, hc⟩, ⟨d, ?_, hd⟩⟩
  · rw [List.head?_append, hhead]
    rfl
  · rw [List.getLast?_append, List.getLast?_append, hlast]
    rfl

end Trimmed

/-- Nothing is trimmed off a front that begins and ends with no blank. -/
theorem exists_trim_append {front : List Char} {c d : Char} (hhead : front.head? = some c)
    (hc : isBlank c = false) (hlast : front.getLast? = some d) (hd : isBlank d = false)
    (rest : List Char) : ∃ rest', trim (front ++ rest) = front ++ rest' := by
  obtain ⟨r, rfl⟩ := List.head?_eq_some_iff.1 hhead
  obtain ⟨s, hs⟩ := List.getLast?_eq_some_iff.1 hlast
  have hstart : trimStart (c :: r ++ rest) = c :: r ++ rest :=
    List.dropWhile_cons_of_neg (by rw [hc]; exact Bool.false_ne_true)
  have hend : (c :: r).reverse.dropWhile isBlank = (c :: r).reverse := by
    rw [hs, List.reverse_concat]
    exact List.dropWhile_cons_of_neg (by rw [hd]; exact Bool.false_ne_true)
  unfold trim trimEnd
  rw [hstart, List.reverse_append, List.dropWhile_append]
  split
  · rw [hend, List.reverse_reverse]
    exact ⟨[], (List.append_nil _).symm⟩
  · rw [List.reverse_append, List.reverse_reverse]
    exact ⟨_, rfl⟩

end RestCase.Chars

namespace RestCase.Text

/-- A string has a rest behind a head exactly if it is the head and that rest. -/
theorem afterPrefix?_eq_some {head s r : String} :
    afterPrefix? head s = some r ↔ s = head ++ r := by
  simp [afterPrefix?, Chars.afterPrefix?_eq_some, String.ext_iff]

theorem startsWith_iff {head s : String} :
    startsWith head s = true ↔ ∃ r, afterPrefix? head s = some r := by
  simp [startsWith, afterPrefix?, Chars.afterPrefix?]

end RestCase.Text
