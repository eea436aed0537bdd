/-
# RestCase.Proofs.Path.Definiteness — definite paths lead to one place

A step is *singular* (`isSingular`) if it leads from one entry to one entry: a member, an item, the
count of items, or back to the document.  A chain of singular steps leads to one value at most
(`length_followChain_le`).

Whether a path is definite is found by a scan over its text that knows nothing of steps.  The scan
and the reader see the same text differently in two places: the scan takes a quote for the end of a
quoted name even behind a backslash, and it takes two dots for a descent only where they are next to
each other, while the reader passes over gaps between them.  A text is *faithful* (`isFaithful`) if
it has neither.  In a faithful text everything that the reader takes for a step with several places
shows a mark that the scan stops at, which is proved reader by reader: each takes a place from which
the scan is clear to another such place (`Clear`, `readStep_clear`, `readChain_clear`).

So a definite path of a faithful text selects one value at most, the one that evaluating it gives
(`select_of_definite`), and `exists_definite_paths_of_two_values` shows a text of either other kind.
-/
import RestCase.Path.Selection
import RestCase.Proofs.Chars.Search

namespace RestCase.Path

/-! ## Singular steps -/

mutual
/-- The step leads from one entry to one entry. -/
def isSingular : Step → Bool
  | .root | .member _ | .length | .item _ => true
  | .here chain => isSingularIn chain
  | _ => false

/-- Every step of the chain does. -/
def isSingularIn : List Step → Bool
  | [] => true
  | s :: r => isSingular s && isSingularIn r
end

/-- One entry, of which one entry at most is made, stays one entry at most. -/
theorem length_flatten_le {f : Found → Except Breakdown (List Found)} {l l' : List Found}
    (hf : ∀ x m, f x = .ok m → m.length ≤ 1) (hl : l.length ≤ 1)
    (h : (l.mapM f).map List.flatten = .ok l') : l'.length ≤ 1 := by
  match l, hl with
  | [], _ =>
    rw [List.mapM_nil] at h
    obtain rfl := Except.ok.inj h
    exact Nat.zero_le 1
  | [x], _ =>
    rw [List.mapM_cons, List.mapM_nil] at h
    cases hx : f x with
    | error b =>
      rw [hx] at h
      cases h
    | ok m =>
      rw [hx] at h
      obtain rfl := Except.ok.inj h
      simpa using hf x m hx

theorem length_orNothing_toList (v : Option Json) : (orNothing v.toList).length = 1 := by
  cases v <;> rfl

/-- A step to one part of a value keeps one entry at most. -/
theorem length_onParts_le {part? : Json → Option Json} {l l' : List Found} (hl : l.length ≤ 1)
    (h : onParts (fun v => .ok (orNothing (part? v).toList)) l = .ok l') : l'.length ≤ 1 := by
  refine length_flatten_le ?_ hl h
  intro x m hx
  cases x with
  | part v =>
    obtain rfl := Except.ok.inj hx
    exact Nat.le_of_eq (length_orNothing_toList (part? v))
  | computed v | nothing =>
    obtain rfl := Except.ok.inj hx
    exact Nat.le_refl 1

mutual
/-- **A chain of singular steps leads from one entry to one entry at most**: `followChain` on a
chain that `isSingularIn`. -/
theorem length_followChain_le [Pattern.Engine] {document : Json} {entries : Bool} :
    ∀ {chain : List Step} {l l' : List Found}, isSingularIn chain = true → l.length ≤ 1 →
      followChain document entries chain l = .ok l' → l'.length ≤ 1
  | [], l, l', _, hl, h => by
    obtain rfl := Except.ok.inj h
    exact hl
  | s :: r, l, l', hs, hl, h => by
    rw [isSingularIn, Bool.and_eq_true] at hs
    rw [followChain] at h
    cases hf : follow document entries s l with
    | error b =>
      rw [hf] at h
      cases h
    | ok m =>
      rw [hf] at h
      exact length_followChain_le hs.2 (length_follow_le hs.1 hl hf) h

theorem length_follow_le [Pattern.Engine] {document : Json} {entries : Bool} :
    ∀ {s : Step} {l l' : List Found}, isSingular s = true → l.length ≤ 1 →
      follow document entries s l = .ok l' → l'.length ≤ 1
  | .root, l, l', _, hl, h => by
    obtain rfl := Except.ok.inj h
    rwa [List.length_map]
  | .here chain, l, l', hs, hl, h =>
    length_flatten_le (fun x _ hx => length_followChain_le (l := [x]) hs (Nat.le_refl 1) hx) hl h
  | .member name, l, l', _, hl, h => length_onParts_le hl h
  | .length, l, l', _, _, h => by
    obtain rfl := Except.ok.inj h
    exact Nat.le_refl 1
  | .item numeral, l, l', _, hl, h => length_onParts_le hl h
end

/-! ## The scan and the reader -/

/-- The scan sees the rest of a text as the reader does: between quotes no backslash stands before
the quote that is open, and outside them no two dots have only gaps between them. -/
def isFaithfulFrom : Option Char → List Char → Bool
  | _, [] => true
  | some q, '\\' :: c :: r => c != q && isFaithfulFrom (some q) r
  | some q, c :: r => isFaithfulFrom (if c = q then none else some q) r
  | none, c :: r =>
    if c = '\'' ∨ c = '"' then isFaithfulFrom (some c) r
    else !(c == '.' && (skipGaps r).head? == some '.' && r.head? != some '.')
      && isFaithfulFrom none r

/-- The scan sees a text as the reader does (`isFaithfulFrom`): what `isDefinite` takes for
granted. -/
def isFaithful (text : List Char) : Bool := isFaithfulFrom none text

/-- Outside quotes and between so many open brackets, the rest of a text shows no mark of several
places (`definiteFrom`) and is faithful (`isFaithfulFrom`). -/
structure Clear (depth : Nat) (s : List Char) : Prop where
  definite : definiteFrom none depth false s = true
  faithful : isFaithfulFrom none s = true

theorem definiteFrom_of_dot {depth : Nat} {dot : Bool} {s : List Char}
    (h : definiteFrom none depth dot s = true) : definiteFrom none depth false s = true := by
  cases s with
  | nil => rfl
  | cons c r =>
    cases dot with
    | false => exact h
    | true =>
      simp only [definiteFrom] at h ⊢
      by_cases hc : c = '.' <;> simp_all

/-- The character is no quote and no bracket. -/
def isInline (c : Char) : Bool := c != '\'' && c != '"' && c != '[' && c != ']'

namespace Clear

variable {depth : Nat} {c q : Char} {s r : List Char}

/-- Past a character that is no quote and no bracket the scan is as it was. -/
theorem inline (h : Clear depth (c :: r)) (hc : isInline c = true) : Clear depth r := by
  obtain ⟨hd, hf⟩ := h
  simp only [isInline, Bool.and_eq_true, bne_iff_ne, ne_eq] at hc
  obtain ⟨⟨⟨hc₁, hc₂⟩, hc₃⟩, hc₄⟩ := hc
  simp only [definiteFrom, isFaithfulFrom, hc₁, hc₂, hc₃, hc₄, or_self, if_false, and_false,
    Bool.false_eq_true] at hd hf
  rw [Bool.and_eq_true] at hf
  refine ⟨?_, hf.2⟩
  split at hd
  · cases hd
  · split at hd
    · cases hd
    · exact definiteFrom_of_dot hd

theorem opened (h : Clear depth ('[' :: r)) : Clear (depth + 1) r := by
  obtain ⟨hd, hf⟩ := h
  simp [definiteFrom] at hd
  simp [isFaithfulFrom] at hf
  exact ⟨hd, hf⟩

theorem closed (h : Clear (depth + 1) (']' :: r)) : Clear depth r := by
  obtain ⟨hd, hf⟩ := h
  simp [definiteFrom] at hd
  simp [isFaithfulFrom] at hf
  exact ⟨hd, hf⟩

theorem not_star : ¬ Clear depth ('*' :: r) := by
  rintro ⟨hd, -⟩
  simp [definiteFrom] at hd

/-- Between brackets the scan stops at the marks of filters, slices and lists. -/
theorem not_mark (hc : c = '?' ∨ c = ':' ∨ c = ',') : ¬ Clear (depth + 1) (c :: r) := by
  rintro ⟨hd, -⟩
  obtain rfl | rfl | rfl := hc <;> simp [definiteFrom] at hd

/-- Two dots, gaps between them or not, are a mark or unfaithful. -/
theorem not_dots (hs : skipGaps s = '.' :: r) : ¬ Clear depth ('.' :: s) := by
  rintro ⟨hd, hf⟩
  simp [isFaithfulFrom, hs] at hf
  obtain ⟨t, rfl⟩ : ∃ t, s = '.' :: t := by
    cases s with
    | nil => simp at hf
    | cons c t => exact ⟨t, by simpa using hf.1⟩
  simp [definiteFrom] at hd

/-- Gaps are passed over. -/
theorem skipGaps (h : Clear depth s) : Clear depth (skipGaps s) := by
  fun_induction Path.skipGaps s with
  | case1 r ih | case2 r ih | case3 r ih => exact ih (h.inline rfl)
  | case4 r ih => exact ih ((h.inline rfl).inline rfl)
  | case5 s => exact h

/-- So are characters none of which is a quote or a bracket. -/
theorem dropWhile {p : Char → Bool} (hp : ∀ c, p c = true → isInline c = true)
    (h : Clear depth s) : Clear depth (s.dropWhile p) := by
  induction s with
  | nil => exact h
  | cons c s ih =>
    rw [List.dropWhile_cons]
    split
    · next hc => exact ih (h.inline (hp c hc))
    · exact h

end Clear

/-! ## Readers of parts of a step -/

/-- A text begins with the word that was passed, and gaps follow it. -/
theorem pass?_eq_some {word : String} {s r : List Char} :
    pass? word s = some r ↔ ∃ t, s = word.toList ++ t ∧ skipGaps t = r := by
  unfold pass?
  rw [Option.map_eq_some_iff]
  simp only [Chars.afterPrefix?_eq_some]

/-- The reader goes from a place where the scan is `Clear` to another one. -/
def Preserves {α : Type} (read : List Char → Option (α × List Char)) : Prop :=
  ∀ {depth : Nat} {s : List Char} {x : α} {r : List Char},
    read s = some (x, r) → Clear depth s → Clear depth r

namespace Clear

variable {depth : Nat} {s r : List Char}

theorem inlines {w : List Char} (hw : w.all isInline = true) (h : Clear depth (w ++ s)) :
    Clear depth s := by
  induction w with
  | nil => exact h
  | cons c w ih =>
    rw [List.all_cons, Bool.and_eq_true] at hw
    exact ih hw.2 (h.inline hw.1)

theorem pass? {word : String} (hword : word.toList.all isInline = true)
    (h : Path.pass? word s = some r) (hs : Clear depth s) : Clear depth r := by
  obtain ⟨t, rfl, rfl⟩ := pass?_eq_some.1 h
  exact (hs.inlines hword).skipGaps

theorem passOptional {word : String} (hword : word.toList.all isInline = true)
    (hs : Clear depth s) : Clear depth (Path.passOptional word s) := by
  unfold Path.passOptional
  cases h : Path.pass? word s with
  | none => exact hs
  | some r => exact hs.pass? hword h

/-- A word that begins with a mark is not passed where the scan is clear. -/
theorem pass?_mark {word : String} {c : Char} {w : List Char} (hword : word.toList = c :: w)
    (hc : c = '?' ∨ c = ':' ∨ c = ',') (hs : Clear (depth + 1) s) : Path.pass? word s = none := by
  rw [Option.eq_none_iff_forall_ne_some]
  intro r h
  obtain ⟨t, rfl, -⟩ := pass?_eq_some.1 h
  rw [hword] at hs
  exact not_mark hc hs

theorem pass?_open (h : Path.pass? "[" s = some r) (hs : Clear depth s) : Clear (depth + 1) r := by
  obtain ⟨t, rfl, rfl⟩ := pass?_eq_some.1 h
  exact (Clear.opened hs).skipGaps

theorem pass?_close (h : Path.pass? "]" s = some r) (hs : Clear (depth + 1) s) : Clear depth r := by
  obtain ⟨t, rfl, rfl⟩ := pass?_eq_some.1 h
  exact (Clear.closed hs).skipGaps

theorem pass?_star (hs : Clear depth s) : Path.pass? "*" s = none := by
  rw [Option.eq_none_iff_forall_ne_some]
  intro r h
  obtain ⟨t, rfl, -⟩ := pass?_eq_some.1 h
  exact not_star hs

end Clear

theorem isInline_of_isNameChar {c : Char} (h : isNameChar c = true) : isInline c = true := by
  have ne : ∀ d, isNameChar d = false → c ≠ d := by
    rintro d hd rfl
    rw [h] at hd
    cases hd
  simp [isInline, ne '\'' (by decide), ne '"' (by decide), ne '[' (by decide), ne ']' (by decide)]

theorem isInline_of_isDigit {c : Char} (h : Chars.isDigit c = true) : isInline c = true :=
  isInline_of_isNameChar (by simp [isNameChar, h])

theorem preserves_readName? : Preserves readName? := by
  intro depth s x r h hs
  unfold readName? at h
  split at h
  · cases h
  · split at h
    · cases h
    · cases h
      exact hs.dropWhile fun _ => isInline_of_isNameChar

/-- Between quotes of one kind, and between so many open brackets, the rest of a text shows no mark
of several places and is faithful. -/
structure ClearInside (quote : Char) (depth : Nat) (s : List Char) : Prop where
  definite : ∃ dot, definiteFrom (some quote) depth dot s = true
  faithful : isFaithfulFrom (some quote) s = true

theorem Clear.quoted {q : Char} (hq : q = '\'' ∨ q = '"') {depth : Nat} {s : List Char}
    (h : Clear depth (q :: s)) : ClearInside q depth s := by
  obtain ⟨hd, hf⟩ := h
  simp only [definiteFrom, hq, if_true] at hd
  simp only [isFaithfulFrom, hq, if_true] at hf
  exact ⟨⟨false, hd⟩, hf⟩

namespace ClearInside

variable {q c : Char} {depth : Nat} {s r : List Char}

theorem inner (h : ClearInside q depth (c :: s)) (hc : c ≠ q) (hback : c ≠ '\\') :
    ClearInside q depth s := by
  obtain ⟨⟨dot, hd⟩, hf⟩ := h
  rw [definiteFrom] at hd
  simp only [hc, if_false] at hd
  refine ⟨⟨_, hd⟩, ?_⟩
  unfold isFaithfulFrom at hf
  split at hf <;> simp_all

/-- An escape is passed over as a whole; it does not escape the quote that is open. -/
theorem escaped (h : ClearInside q depth ('\\' :: c :: s)) (hq : q ≠ '\\') :
    ClearInside q depth s := by
  obtain ⟨⟨dot, hd⟩, hf⟩ := h
  simp only [isFaithfulFrom, Bool.and_eq_true, bne_iff_ne, ne_eq] at hf
  simp only [definiteFrom, Ne.symm hq, hf.1, if_false] at hd
  exact ⟨⟨_, hd⟩, hf.2⟩

theorem close (h : ClearInside q depth (q :: s)) (hq : q ≠ '\\') : Clear depth s := by
  obtain ⟨⟨dot, hd⟩, hf⟩ := h
  simp only [definiteFrom, if_true] at hd
  refine ⟨definiteFrom_of_dot hd, ?_⟩
  unfold isFaithfulFrom at hf
  split at hf <;> simp_all

/-- **The scan leaves a quoted stretch where the reader does.** -/
theorem of_afterInner (hq : q = '\'' ∨ q = '"') (h : afterInner s = q :: r)
    (hs : ClearInside q depth s) : Clear depth r := by
  have hback : q ≠ '\\' := by obtain rfl | rfl := hq <;> decide
  fun_induction afterInner s with
  -- four hexadecimal digits behind an escape: none of them ends the stretch or escapes
  | case1 a b c d s hhex ih =>
    have ne : ∀ x, Chars.isHexDigit x = true → x ≠ q ∧ x ≠ '\\' := by
      intro x hx
      constructor
      · rintro rfl
        obtain rfl | rfl := hq <;> exact absurd hx (by decide)
      · rintro rfl
        exact absurd hx (by decide)
    simp only [List.all_cons, List.all_nil, Bool.and_eq_true, Bool.and_true] at hhex
    obtain ⟨ha, hb, hc, hd⟩ := hhex
    have hs₁ := (hs.escaped hback).inner (ne a ha).1 (ne a ha).2
    have hs₂ := (hs₁.inner (ne b hb).1 (ne b hb).2).inner (ne c hc).1 (ne c hc).2
    exact ih h (hs₂.inner (ne d hd).1 (ne d hd).2)
  | case3 c s _ _ ih => exact ih h (hs.escaped hback)
  -- a backslash is no quote, so the reader has not stopped here
  | case2 | case4 | case5 => exact absurd (List.cons.inj h).1.symm hback
  | case6 s | case7 s =>
    obtain ⟨rfl, rfl⟩ := List.cons.inj h
    exact hs.close hback
  | case8 _ s _ _ hc hsingle hdouble ih =>
    refine ih h (hs.inner ?_ hc)
    rintro rfl
    exact hq.elim hsingle hdouble
  | case9 => cases h

end ClearInside

theorem preserves_readQuoted? : Preserves readQuoted? := by
  intro depth s x r h hs
  unfold readQuoted? at h
  split at h
  · cases h
  · next q s =>
    split at h
    · next hq =>
      split at h
      · next c rest hinner =>
        split at h
        · next hc =>
          subst hc
          cases h
          exact (hs.quoted hq).of_afterInner hq hinner
        · cases h
      · cases h
    · cases h

theorem preserves_readBracketName? : Preserves readBracketName? := by
  intro depth s x r h hs
  unfold readBracketName? at h
  split at h
  · next s =>
    split at h
    · next name rest hq =>
      cases h
      exact (preserves_readQuoted? hq hs.opened).closed
    · cases h
  · cases h

/-! ## Numbers -/

theorem Clear.afterDigits {depth : Nat} {s : List Char} (h : Clear depth s) :
    Clear depth (afterDigits s) :=
  h.dropWhile fun _ => isInline_of_isDigit

theorem clear_afterSomeDigits? {depth : Nat} {s r : List Char} (h : afterSomeDigits? s = some r)
    (hs : Clear depth s) : Clear depth r := by
  unfold afterSomeDigits? at h
  split at h
  · split at h
    · next hc =>
      cases h
      exact (hs.inline (isInline_of_isDigit hc)).afterDigits
    · cases h
  · cases h

theorem Clear.afterFraction {depth : Nat} {s : List Char} (h : Clear depth s) :
    Clear depth (afterFraction s) := by
  unfold Path.afterFraction
  split
  · next r =>
    cases hr : afterSomeDigits? r with
    | none => exact h
    | some t => exact clear_afterSomeDigits? hr (h.inline rfl)
  · exact h

theorem Clear.afterExponent {depth : Nat} {s : List Char} (h : Clear depth s) :
    Clear depth (afterExponent s) := by
  unfold Path.afterExponent
  split
  · next c r =>
    split
    · next hc =>
      have hr : Clear depth r := h.inline (by obtain rfl | rfl := hc <;> rfl)
      -- without digits the exponent is given back, and nothing has been read
      have hdigits : ∀ u, Clear depth u → Clear depth ((afterSomeDigits? u).getD (c :: r)) := by
        intro u hu
        cases hd : afterSomeDigits? u with
        | none => exact h
        | some t => exact clear_afterSomeDigits? hd hu
      refine hdigits _ ?_
      split
      · exact hr.inline rfl
      · exact hr.inline rfl
      · exact hr
    · exact h
  · exact h

theorem preserves_readNumber? : Preserves readNumber? := by
  intro depth s x r h hs
  unfold readNumber? at h
  obtain ⟨t, ht, heq⟩ := Option.map_eq_some_iff.1 h
  cases heq
  refine (Clear.afterFraction ?_).afterExponent
  -- the text behind the sign, if there is one, is clear as well
  have hsign : ∀ {u v : List Char}, u = v → Clear depth u → Clear depth v := fun h hu => h ▸ hu
  split at ht
  · next heq =>
    cases ht
    refine (hsign heq ?_).inline rfl
    split
    · exact hs.inline rfl
    · exact hs
  · split at ht
    · next heq hc =>
      cases ht
      refine ((hsign heq ?_).inline (isInline_of_isDigit hc)).afterDigits
      split
      · exact hs.inline rfl
      · exact hs
    · cases ht
  · cases ht

theorem Clear.afterSpacedDigits {depth n : Nat} {s : List Char} (h : Clear depth s) :
    Clear depth (afterSpacedDigits n s) := by
  induction n generalizing s with
  | zero => exact h
  | succ n ih =>
    have hskip := h.skipGaps
    unfold Path.afterSpacedDigits
    split
    · next c r hcr =>
      rw [hcr] at hskip
      split
      · next hc => exact ih (hskip.inline (isInline_of_isDigit hc))
      · exact h
    · exact h

theorem preserves_readNatural? : Preserves readNatural? := by
  intro depth s x r h hs
  unfold readNatural? at h
  split at h
  · cases h
    exact hs.inline rfl
  · split at h
    · next hc =>
      cases h
      exact (hs.inline (isInline_of_isDigit hc)).skipGaps.afterSpacedDigits
    · cases h
  · cases h

theorem preserves_readInteger? : Preserves readInteger? := by
  intro depth s x r h hs
  unfold readInteger? at h
  split at h
  · next t =>
    obtain ⟨n, hn, heq⟩ := Option.map_eq_some_iff.1 h
    cases heq
    exact preserves_readNatural? hn (hs.inline rfl).skipGaps
  · exact preserves_readNatural? h hs

/-! ## Between brackets -/

/-- Between brackets no comma, and so no list, is read where the scan is clear. -/
theorem readSeveral?_of_clear {α : Type} {item? : List Char → Option (α × List Char)}
    (hitem : Preserves item?) {depth : Nat} {s : List Char} (hs : Clear (depth + 1) s) :
    readSeveral? item? s = none := by
  unfold readSeveral?
  cases h : item? s with
  | none => rfl
  | some found =>
    obtain ⟨x, r⟩ := found
    have hcomma : pass? "," (skipGaps r) = none :=
      (hitem h hs).skipGaps.pass?_mark rfl (Or.inr (Or.inr rfl))
    have hmore : readMore item? r.length r = ([], r) := by
      cases hr : r.length with
      | zero => rfl
      | succ n => simp [readMore, hcomma]
    simp only [hmore]

/-- Nor is a slice. -/
theorem readSlice?_of_clear {depth : Nat} {s : List Char} (hs : Clear (depth + 1) s) :
    readSlice? s = none := by
  unfold readSlice?
  cases h : readInteger? s with
  | none =>
    have hcolon : pass? ":" s = none := hs.pass?_mark rfl (Or.inr (Or.inl rfl))
    simp only [hcolon, Option.map_none]
  | some found =>
    obtain ⟨t, r⟩ := found
    have hcolon : pass? ":" (skipGaps r) = none :=
      (preserves_readInteger? h hs).skipGaps.pass?_mark rfl (Or.inr (Or.inl rfl))
    simp only [hcolon, Option.map_none]

/-- Between brackets one item is read, or nothing. -/
theorem readSelector?_clear {depth : Nat} {s r : List Char} {step : Step}
    (h : readSelector? s = some (step, r)) (hs : Clear (depth + 1) s) :
    isSingular step = true ∧ Clear (depth + 1) r := by
  unfold readSelector? at h
  rw [readSeveral?_of_clear preserves_readQuoted? hs,
    readSeveral?_of_clear preserves_readNumber? hs,
    readSlice?_of_clear hs] at h
  obtain ⟨found, hn, heq⟩ := Option.map_eq_some_iff.1 h
  cases heq
  exact ⟨rfl, preserves_readNatural? hn hs⟩

/-! ## Steps and chains -/

section Steps

variable {fuel depth : Nat} {s r : List Char} {step : Step}

theorem readMember?_clear (h : readMember? s = some (step, r)) (hs : Clear depth s) :
    isSingular step = true ∧ Clear depth r := by
  -- a name between brackets comes first, and whatever is read otherwise is the remaining goal
  have hsome : ∀ {u} {rest : Option (String × List Char)} {found : String × List Char},
      (readBracketName? u <|> rest) = some found → Clear depth u →
      (rest = some found → Clear depth found.2) → Clear depth found.2 := by
    intro u rest found hfound hu hrest
    cases hbracket : readBracketName? u with
    | some k =>
      rw [hbracket] at hfound
      cases hfound
      exact preserves_readBracketName? hbracket hu
    | none =>
      rw [hbracket] at hfound
      exact hrest hfound
  unfold readMember? at h
  obtain ⟨found, hfound, heq⟩ := Option.map_eq_some_iff.1 h
  cases heq
  refine ⟨rfl, hsome hfound ?_ ?_⟩
  · split
    · exact hs.inline rfl
    · exact hs
  · intro hname
    split at hname
    · exact preserves_readName? hname (hs.inline rfl)
    · cases hname

theorem readPlainStep?_clear (h : readPlainStep? s = some (step, r)) (hs : Clear depth s) :
    isSingular step = true ∧ Clear depth r := by
  -- a dot is not followed by a second one, and a star follows neither a bracket nor a dot
  have hdots : (pass? "." s).bind (pass? ".") = none := by
    rw [Option.bind_eq_none_iff]
    intro u hu
    rw [Option.eq_none_iff_forall_ne_some]
    intro t ht
    obtain ⟨v, rfl, rfl⟩ := pass?_eq_some.1 hu
    obtain ⟨w, hw, -⟩ := pass?_eq_some.1 ht
    exact Clear.not_dots hw hs
  have hopen : (pass? "[" (passOptional "." s)).bind (pass? "*") = none :=
    Option.bind_eq_none_iff.2 fun u hu => ((hs.passOptional rfl).pass?_open hu).pass?_star
  have hstar : (pass? "." s).bind (pass? "*") = none :=
    Option.bind_eq_none_iff.2 fun u hu => (hs.pass? rfl hu).pass?_star
  unfold readPlainStep? at h
  rw [hdots, hopen, hstar] at h
  cases hroot : pass? "$" s with
  | none =>
    rw [hroot] at h
    cases h
  | some t =>
    rw [hroot] at h
    cases h
    exact ⟨rfl, hs.pass? rfl hroot⟩

theorem readLength?_clear (h : readLength? s = some (step, r)) (hs : Clear depth s) :
    isSingular step = true ∧ Clear depth r := by
  unfold readLength? at h
  obtain ⟨t, ht, heq⟩ := Option.map_eq_some_iff.1 h
  cases heq
  simp only [Option.bind_eq_bind, Option.bind_eq_some_iff] at ht
  obtain ⟨s₃, ⟨s₂, ⟨s₁, h₁, h₂⟩, h₃⟩, h₄⟩ := ht
  have hs₂ := (hs.pass? rfl h₁).pass? rfl h₂
  exact ⟨rfl, (hs₂.pass? rfl h₃).pass? rfl h₄⟩

/-- Between brackets a filter is a mark, so what is read there is an item. -/
theorem readBracket_clear (h : readBracket fuel s = some (step, r)) (hs : Clear depth s) :
    isSingular step = true ∧ Clear depth r := by
  cases fuel with
  | zero => cases h
  | succ fuel =>
    unfold readBracket at h
    simp only [Option.bind_eq_bind, Option.bind_eq_some_iff] at h
    obtain ⟨t, ht, h⟩ := h
    have hclear := (hs.passOptional rfl).pass?_open ht
    cases hsel : readSelector? t with
    | some found =>
      rw [hsel] at h
      simp only [Option.bind_some] at h
      obtain ⟨u, hu, heq⟩ := Option.bind_eq_some_iff.1 h
      cases heq
      obtain ⟨hsingular, hrest⟩ := readSelector?_clear hsel hclear
      exact ⟨hsingular, hrest.skipGaps.pass?_close hu⟩
    | none =>
      -- the only other thing between brackets is a filter, and its mark is one that the scan
      -- reports
      have hmark : pass? "?" t = none := hclear.pass?_mark rfl (Or.inl rfl)
      rw [hsel, hmark] at h
      cases h

mutual
/-- **A chain that is read where the scan is clear is singular** (`isSingularIn`), and the scan is
`Clear` behind it. -/
theorem readChain_clear : ∀ {fuel : Nat} {s r : List Char} {chain : List Step},
    readChain fuel s = some (chain, r) → Clear depth s →
      isSingularIn chain = true ∧ Clear depth r
  | 0, s, r, chain, h, hs => by cases h
  | fuel + 1, s, r, chain, h, hs => by
    rw [readChain] at h
    cases hstep : readStep fuel s with
    | none =>
      rw [hstep] at h
      cases h
    | some found =>
      obtain ⟨step, t⟩ := found
      obtain ⟨hsingular, ht⟩ := readStep_clear hstep hs
      rw [hstep] at h
      -- the chain ends with this step, or goes on from where the scan is still clear
      cases hmore : readChain fuel (skipGaps t) with
      | none =>
        simp only [hmore] at h
        cases h
        exact ⟨by rw [isSingularIn, hsingular]; rfl, ht.skipGaps⟩
      | some found =>
        obtain ⟨more, u⟩ := found
        obtain ⟨hmany, hu⟩ := readChain_clear hmore ht.skipGaps
        simp only [hmore] at h
        cases h
        exact ⟨by rw [isSingularIn, hsingular, hmany]; rfl, hu⟩

/-- So is a step. -/
theorem readStep_clear : ∀ {fuel : Nat} {s r : List Char} {step : Step},
    readStep fuel s = some (step, r) → Clear depth s → isSingular step = true ∧ Clear depth r
  | 0, s, r, step, h, hs => by cases h
  | fuel + 1, s, r, step, h, hs => by
    rw [readStep] at h
    split at h
    · next found hplain =>
      cases h
      exact readPlainStep?_clear hplain hs
    · split at h
      · next t hat =>
        have ht := hs.pass? rfl hat
        split at h
        · next chain rest hchain =>
          cases h
          exact readChain_clear hchain ht
        · cases h
          exact ⟨rfl, ht⟩
      · split at h
        · next found hmember =>
          cases h
          exact readMember?_clear hmember hs
        · split at h
          · next found hbracket =>
            cases h
            exact readBracket_clear hbracket hs
          · exact readLength?_clear h hs
end

end Steps

/-! ## Definite paths -/

/-- The full form of the text of a path (`normalized`), which the reader and the scan go through. -/
def fullForm (expression : String) : List Char := normalized (Chars.trim expression.toList)

/-- A path is the chain that the reader finds in the full form of its text, and it is definite if
the scan finds no mark in it. -/
theorem of_parse {expression : String} {path : Path} (h : parse expression = .ok path) :
    chainOf? (fullForm expression) = some path.chain ∧
      path.definite = isDefinite (fullForm expression) := by
  unfold parse at h
  simp only at h
  split at h
  · cases h
  · split at h
    · cases h
    · next chain hchain =>
      split at h
      · cases h
      · cases h
        exact ⟨hchain, rfl⟩

theorem isSingularIn_of_chainOf? {text : List Char} {chain : List Step}
    (h : chainOf? text = some chain) (hs : Clear 0 text) : isSingularIn chain = true := by
  unfold chainOf? at h
  split at h
  · next chain' rest hread =>
    split at h
    · cases h
      exact (readChain_clear hread hs.skipGaps).1
    · cases h
  · cases h

/-- **A definite path of a faithful text leads to one place at most**: if the `fullForm` of the
text `isFaithful`, what `Path.select` gives is the value of `Path.evaluate`, or nothing if that
gives none. -/
theorem select_of_definite [Pattern.Engine] {expression : String} {path : Path} {document : Json}
    {found : List Json} (hparse : parse expression = .ok path) (hdefinite : path.definite = true)
    (hfaithful : isFaithful (fullForm expression) = true)
    (hselect : path.select document = .ok found) :
    found.length ≤ 1 ∧ ∃ value, path.evaluate document = .ok value ∧ found = value.toList := by
  obtain ⟨hchain, hscan⟩ := of_parse hparse
  have hsingular : isSingularIn path.chain = true :=
    isSingularIn_of_chainOf? hchain ⟨hscan.symm.trans hdefinite, hfaithful⟩
  have hlength : found.length ≤ 1 := by
    unfold select at hselect
    split at hselect
    · cases hfollow : followChain document (endsInCount path.chain) path.chain [.part document] with
      | error b =>
        rw [hfollow] at hselect
        cases hselect
      | ok l =>
        rw [hfollow] at hselect
        obtain rfl := Except.ok.inj hselect
        have hl : l.length ≤ 1 :=
          length_followChain_le (l := [.part document]) hsingular (Nat.le_refl 1) hfollow
        exact Nat.le_trans (List.length_filterMap_le _ _) hl
    · cases hselect
  -- evaluating a definite path takes the first of what it selects, which is all of it
  refine ⟨hlength, found.head?, ?_, ?_⟩
  · simp [evaluate, hselect, hdefinite, Except.map]
  · match found, hlength with
    | [], _ | [_], _ => rfl

namespace QuotedMarks

/-- A path with every mark between quotes, the other quote behind a backslash among them. -/
def expression : String := "a['..*,?:[ . .'][0][\"it\\'s\"]"

/-- A document in which the path leads to a number. -/
def document : Json :=
  .object [("a", .object [("..*,?:[ . .", .array [.object [("it\\'s", .int 7)]])])]

end QuotedMarks

/-- Marks between quotes are no marks: the path is definite and selects the one number. -/
theorem select_of_definite_quotedMarks :
    ∃ path, parse QuotedMarks.expression = .ok path ∧ path.definite = true ∧
      isFaithful (fullForm QuotedMarks.expression) = true ∧
      ∃ found, path.select QuotedMarks.document = .ok found ∧ found.map Json.stringForm = ["7"] ∧
        found.length ≤ 1 ∧
        ∃ value, path.evaluate QuotedMarks.document = .ok value ∧ found = value.toList := by
  have hfacts : ((parse QuotedMarks.expression).toOption.map fun path =>
      (path.definite, (path.select QuotedMarks.document).toOption.map (·.map Json.stringForm))) =
      some (true, some ["7"]) := by decide +kernel
  have hfaithful : isFaithful (fullForm QuotedMarks.expression) = true := by decide +kernel
  cases hparse : parse QuotedMarks.expression with
  | error fault =>
    rw [hparse] at hfacts
    cases hfacts
  | ok path =>
    rw [hparse] at hfacts
    obtain ⟨hdefinite, hvalues⟩ := Prod.mk.inj (Option.some.inj hfacts)
    cases hselect : path.select QuotedMarks.document with
    | error b =>
      rw [hselect] at hvalues
      cases hvalues
    | ok found =>
      rw [hselect] at hvalues
      exact ⟨path, rfl, hdefinite, hfaithful, found, hselect, Option.some.inj hvalues,
        select_of_definite hparse hdefinite hfaithful hselect⟩

/-- **Not every definite path leads to one place at most**: neither a descent whose dots are parted
nor a wildcard behind a quoted name that holds its own quote shows a mark to `isDefinite`. -/
theorem exists_definite_paths_of_two_values :
    (∃ path found, parse "$. .a" = .ok path ∧ path.definite = true ∧
      path.select (.object [("a", .int 1), ("b", .object [("a", .int 2)])]) = .ok found ∧
      found.length = 2) ∧
    ∃ path found, parse "$['\\''][*]" = .ok path ∧ path.definite = true ∧
      path.select (.object [("\\'", .array [.int 1, .int 2])]) = .ok found ∧
      found.length = 2 := by
  have htwo : ∀ (e : String) (document : Json),
      ((parse e).toOption.map fun path =>
        (path.definite, (path.select document).toOption.map List.length)) = some (true, some 2) →
      ∃ path found, parse e = .ok path ∧ path.definite = true ∧
        path.select document = .ok found ∧ found.length = 2 := by
    intro e document h
    cases hparse : parse e with
    | error fault =>
      rw [hparse] at h
      cases h
    | ok path =>
      rw [hparse] at h
      obtain ⟨hdefinite, hlength⟩ := Prod.mk.inj (Option.some.inj h)
      obtain ⟨found, hfound, htwo⟩ := Option.map_eq_some_iff.1 hlength
      cases hselect : path.select document with
      | error b =>
        rw [hselect] at hfound
        cases hfound
      | ok l =>
        rw [hselect] at hfound
        obtain rfl := Option.some.inj hfound
        exact ⟨path, l, rfl, hdefinite, hselect, htwo⟩
  exact ⟨htwo _ _ (by decide +kernel), htwo _ _ (by decide +kernel)⟩

end RestCase.Path
