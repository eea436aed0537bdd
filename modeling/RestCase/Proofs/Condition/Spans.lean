/-
# RestCase.Proofs.Condition.Spans — quoted spans

Which places of a condition are quoted can be said without the mask: a span reaches from the first
quote that may open one to the next equal quote that may close it, the search for the next span goes
on behind it, and an opening quote that is never closed ends the search (`Quoting`).  A text has
exactly one such list of spans (`exists_quoting`, `Quoting.unique`), and the mask is set at the
places that they cover (`Quoting.masked_iff`).

No token of an operator has a quote in it, and both ends of a span are quotes.  So what is found of
a token lies within a span or outside all of them (`Quoting.beside_or_within`), and it is enough to
look at its first character: the places of an operator that are searched are those outside the spans
(`Quoting.places_iff`).
-/
import RestCase.Proofs.Chars.Occurrences
import RestCase.Proofs.Condition.Quoting

namespace RestCase.Condition

open Chars (FirstFrom LeftToRight OccursAt)

/-! ## Spans -/

/-- The start of the text or a gap stands in front of a place. -/
def AfterGap (text : List Char) (place : Nat) : Prop :=
  place = 0 ∨ ∃ c, text[place - 1]? = some c ∧ Chars.isAsciiGap c = true

/-- The end of the text or a gap stands behind a place. -/
def BeforeGap (text : List Char) (place : Nat) : Prop :=
  text[place + 1]? = none ∨ ∃ c, text[place + 1]? = some c ∧ Chars.isAsciiGap c = true

/-- A quote that may open a span stands at a place: `AfterGap` it. -/
def OpensAt (text : List Char) (place : Nat) : Prop :=
  (∃ quote, text[place]? = some quote ∧ isQuote quote = true) ∧ AfterGap text place

/-- At a place stands a given quote that may close a span: `BeforeGap` it. -/
def ClosesAt (quote : Char) (text : List Char) (place : Nat) : Prop :=
  text[place]? = some quote ∧ BeforeGap text place

/-- A stretch of a text, from its first place to its last. -/
structure Span where
  first : Nat
  last : Nat

/-- The place belongs to the stretch. -/
def Span.Covers (s : Span) (place : Nat) : Prop := s.first ≤ place ∧ place ≤ s.last

/-- The quoted spans of a text from a place on, from left to right: each begins at the first place
that opens one (`OpensAt`) and ends at the first that closes it (`ClosesAt`). -/
inductive Quoting (text : List Char) : Nat → List Span → Prop
  | none {start : Nat} (h : ∀ k, start ≤ k → ¬ OpensAt text k) : Quoting text start []
  | unclosed {start first : Nat} {quote : Char} (hopen : FirstFrom (OpensAt text) start first)
      (hquote : text[first]? = some quote) (h : ∀ k, first + 1 ≤ k → ¬ ClosesAt quote text k) :
      Quoting text start []
  | span {start first last : Nat} {quote : Char} {spans : List Span}
      (hopen : FirstFrom (OpensAt text) start first) (hquote : text[first]? = some quote)
      (hclose : FirstFrom (ClosesAt quote text) (first + 1) last)
      (hrest : Quoting text (last + 1) spans) : Quoting text start (⟨first, last⟩ :: spans)

section Spans

variable {text : List Char} {start later : Nat} {spans spans' : List Span}

/-- **A text has one list of spans**, as `FirstFrom` has one place. -/
theorem Quoting.unique (h : Quoting text start spans) (h' : Quoting text start spans') :
    spans = spans' := by
  induction h generalizing spans' with
  -- both scans open at the least place that opens and close at the least that closes
  | none hnone =>
    cases h' with
    | none | unclosed => rfl
    | span hopen => exact absurd hopen.1.2 (hnone _ hopen.1.1)
  | unclosed hopen hquote hnone =>
    cases h' with
    | none | unclosed => rfl
    | span hopen' hquote' hclose' =>
      obtain rfl := IsLeast.unique hopen hopen'
      obtain rfl := Option.some.inj (hquote.symm.trans hquote')
      exact absurd hclose'.1.2 (hnone _ hclose'.1.1)
  | span hopen hquote hclose _ ih =>
    cases h' with
    | none hnone => exact absurd hopen.1.2 (hnone _ hopen.1.1)
    | unclosed hopen' hquote' hnone =>
      obtain rfl := IsLeast.unique hopen hopen'
      obtain rfl := Option.some.inj (hquote.symm.trans hquote')
      exact absurd hclose.1.2 (hnone _ hclose.1.1)
    | span hopen' hquote' hclose' hrest' =>
      obtain rfl := IsLeast.unique hopen hopen'
      obtain rfl := Option.some.inj (hquote.symm.trans hquote')
      obtain rfl := IsLeast.unique hclose hclose'
      rw [ih hrest']

/-- The spans are found from an earlier place as well, if none opens in between. -/
theorem Quoting.lower (h : Quoting text later spans) (hle : start ≤ later)
    (hnone : ∀ k, start ≤ k → k < later → ¬ OpensAt text k) : Quoting text start spans := by
  cases h with
  | none h => exact .none (Chars.not_of_le hnone h)
  | unclosed hopen hquote h => exact .unclosed (hopen.lower hle hnone) hquote h
  | span hopen hquote hclose hrest => exact .span (hopen.lower hle hnone) hquote hclose hrest

/-- What is known of a span: where it begins, and that a quote stands at either end. -/
theorem Quoting.of_mem (h : Quoting text start spans) {s : Span} (hs : s ∈ spans) :
    start ≤ s.first ∧ s.first < s.last ∧
      ∃ quote, isQuote quote = true ∧ text[s.first]? = some quote ∧
        text[s.last]? = some quote := by
  induction h with
  | none | unclosed => cases hs
  | @span start first last quote spans hopen hquote hclose _ ih =>
    have hlt : first < last := hclose.1.1
    rcases List.mem_cons.1 hs with rfl | hs
    · obtain ⟨⟨q, hq, hisQuote⟩, -⟩ := hopen.1.2
      obtain rfl := Option.some.inj (hquote.symm.trans hq)
      exact ⟨hopen.1.1, hlt, quote, hisQuote, hquote, hclose.1.2.1⟩
    · obtain ⟨hle, hrest⟩ := ih hs
      have hstart : start ≤ first := hopen.1.1
      exact ⟨by omega, hrest⟩

end Spans

/-! ## Closing quotes -/

section Closing

variable {text before rest : List Char} {quote c : Char} {n : Nat}

theorem getElem?_length_append_cons (before rest : List Char) (c : Char) :
    (before ++ c :: rest)[before.length]? = some c := by
  rw [List.getElem?_append_right (Nat.le_refl _), Nat.sub_self, List.getElem?_cons_zero]

theorem beforeGap_iff (htext : text = before ++ c :: rest) :
    BeforeGap text before.length ↔ (rest.head?.map Chars.isAsciiGap).getD true = true := by
  have hnext : text[before.length + 1]? = rest.head? := by
    rw [htext, List.getElem?_append_right (Nat.le_add_right _ 1), Nat.add_sub_cancel_left,
      List.getElem?_cons_succ, List.head?_eq_getElem?]
  unfold BeforeGap
  rw [hnext]
  cases rest.head? with
  | none => simp
  | some d => simp

theorem afterGap_length_iff (htext : text = before ++ c :: rest) :
    AfterGap text (before.length + 1) ↔ Chars.isAsciiGap c = true := by
  have hlast : text[before.length + 1 - 1]? = some c := by
    rw [htext]
    exact getElem?_length_append_cons before rest c
  unfold AfterGap
  rw [hlast]
  simp

theorem closesAt_length_iff (htext : text = before ++ c :: rest) :
    ClosesAt quote text before.length ↔
      c = quote ∧ (rest.head?.map Chars.isAsciiGap).getD true = true := by
  unfold ClosesAt
  rw [beforeGap_iff htext, htext, getElem?_length_append_cons, Option.some.injEq]

theorem opensAt_length_iff {gap : Bool} (htext : text = before ++ c :: rest)
    (hgap : gap = true ↔ AfterGap text before.length) :
    OpensAt text before.length ↔ (isQuote c && gap) = true := by
  unfold OpensAt
  rw [← hgap, Bool.and_eq_true, htext, getElem?_length_append_cons]
  simp

/-- The number of characters before the closing quote says where that quote stands. -/
theorem firstFrom_of_closingAt? (htext : text = before ++ rest)
    (h : closingAt? quote rest = some n) :
    FirstFrom (ClosesAt quote text) before.length (before.length + n) := by
  -- `before` grows by the character that the search has passed
  induction rest generalizing before n with
  | nil => cases h
  | cons d r ih =>
    have htext' : text = (before ++ [d]) ++ r := htext.trans (List.append_cons before d r)
    have hlen : (before ++ [d]).length = before.length + 1 := List.length_append
    have hcloses : ClosesAt quote text before.length ↔ _ := closesAt_length_iff htext
    rw [closingAt?] at h
    split at h
    · next hhere =>
      obtain rfl := Option.some.inj h
      exact .here (hcloses.2 hhere)
    · next hmiss =>
      obtain ⟨m, hm, rfl⟩ := Option.map_eq_some_iff.1 h
      have hlater := ih htext' hm
      rw [hlen, Nat.add_right_comm] at hlater
      exact hlater.lower (Nat.le_succ _) (Chars.not_of_lt_succ (mt hcloses.1 hmiss))

theorem not_closesAt_of_closingAt? (htext : text = before ++ rest)
    (h : closingAt? quote rest = none) :
    ∀ k, before.length ≤ k → ¬ ClosesAt quote text k := by
  induction rest generalizing before with
  | nil =>
    intro k hk hcloses
    rw [ClosesAt, htext, List.append_nil, List.getElem?_eq_none hk] at hcloses
    cases hcloses.1
  | cons d r ih =>
    have htext' : text = (before ++ [d]) ++ r := htext.trans (List.append_cons before d r)
    have hlen : (before ++ [d]).length = before.length + 1 := List.length_append
    rw [closingAt?] at h
    split at h
    · cases h
    · next hmiss =>
      intro k hk
      rcases Nat.eq_or_lt_of_le hk with rfl | hlt
      · exact fun hhere => hmiss ((closesAt_length_iff htext).1 hhere)
      · exact ih htext' (Option.map_eq_none_iff.1 h) k (by rw [hlen]; exact hlt)

/-- The closing quote is one of the characters behind the opening one. -/
theorem exists_append_of_closingAt? (h : closingAt? quote rest = some n) :
    ∃ inside after, rest = inside ++ after ∧ inside.length = n + 1 := by
  have hlast := firstFrom_of_closingAt? (List.nil_append rest).symm h
  have hlt : n < rest.length := by
    by_contra hlong
    have hquote := hlast.1.2.1
    rw [List.getElem?_eq_none (by simpa using hlong)] at hquote
    cases hquote
  exact ⟨rest.take (n + 1), rest.drop (n + 1), (List.take_append_drop _ rest).symm,
    List.length_take_of_le hlt⟩

end Closing

/-! ## The mask -/

/-- A mask of the text from a place on covers the spans from there on (`Span.Covers`), and nothing
else. -/
def Masks (text : List Char) (start : Nat) (mask : List Bool) : Prop :=
  ∃ spans, Quoting text start spans ∧
    ∀ k, mask[k]?.getD false = true ↔ ∃ s ∈ spans, s.Covers (start + k)

section Mask

variable {text before rest : List Char} {quote c : Char} {start n : Nat} {mask : List Bool}

theorem masks_of_not_opens (h : ∀ k, start ≤ k → ¬ OpensAt text k) : Masks text start [] :=
  ⟨[], .none h, fun k => by simp⟩

/-- A place at which no span opens is not masked. -/
theorem Masks.skip (h : Masks text (start + 1) mask) (hnone : ¬ OpensAt text start) :
    Masks text start (false :: mask) := by
  obtain ⟨spans, hspans, hmask⟩ := h
  refine ⟨spans, hspans.lower (Nat.le_succ _) (Chars.not_of_lt_succ hnone), fun k => ?_⟩
  cases k with
  | zero =>
    refine iff_of_false Bool.false_ne_true ?_
    rintro ⟨s, hs, hfirst, -⟩
    have hle := (hspans.of_mem hs).1
    omega
  | succ k => rw [List.getElem?_cons_succ, hmask k, Nat.add_right_comm, Nat.add_assoc]

/-- A quote that is never closed leaves the rest of the text without a mask. -/
theorem masks_unclosed (hopen : OpensAt text start) (hquote : text[start]? = some quote)
    (hnone : ∀ k, start + 1 ≤ k → ¬ ClosesAt quote text k) (n : Nat) :
    Masks text start (List.replicate n false) := by
  refine ⟨[], .unclosed (.here hopen) hquote hnone, fun k => ?_⟩
  rw [List.getElem?_replicate]
  split <;> simp

/-- A span is masked from its opening quote to its closing one. -/
theorem Masks.span (h : Masks text (start + 1 + n + 1) mask) (hopen : OpensAt text start)
    (hquote : text[start]? = some quote)
    (hclose : FirstFrom (ClosesAt quote text) (start + 1) (start + 1 + n)) :
    Masks text start (List.replicate (n + 2) true ++ mask) := by
  obtain ⟨spans, hspans, hmask⟩ := h
  refine ⟨⟨start, start + 1 + n⟩ :: spans, .span (.here hopen) hquote hclose hspans, fun k => ?_⟩
  simp only [List.mem_cons, exists_eq_or_imp]
  -- inside the span the mask is the run of marks, behind it that of the rest
  rcases Nat.lt_or_ge k (n + 2) with hinside | hbehind
  · rw [List.getElem?_append_left (by rwa [List.length_replicate]), List.getElem?_replicate,
      if_pos hinside]
    have hcovers : Span.Covers ⟨start, start + 1 + n⟩ (start + k) :=
      ⟨Nat.le_add_right start k, show start + k ≤ start + 1 + n by omega⟩
    exact iff_of_true rfl (.inl hcovers)
  · have hplace : start + 1 + n + 1 + (k - (n + 2)) = start + k := by omega
    have hnot : ¬ Span.Covers ⟨start, start + 1 + n⟩ (start + k) := by
      rintro ⟨-, hle⟩
      have hle' : start + k ≤ start + 1 + n := hle
      omega
    rw [List.getElem?_append_right (by rwa [List.length_replicate]), List.length_replicate,
      hmask, hplace, or_iff_right hnot]

/-- **The mask of a text covers its spans**, from any place on to which the search for a span has
come: `maskFrom` against `Quoting`. -/
theorem masks_maskFrom {gap : Bool} (htext : text = before ++ rest)
    (hgap : gap = true ↔ AfterGap text before.length) :
    Masks text before.length (maskFrom 0 gap rest) := by
  -- a span is passed over at once, so the induction is on the length of what is left
  induction hlength : rest.length using Nat.strong_induction_on generalizing before rest gap with
  | _ length ih =>
  cases rest with
  | nil =>
    refine masks_of_not_opens fun k hk hopens => ?_
    obtain ⟨⟨quote, hquote, -⟩, -⟩ := hopens
    rw [htext, List.append_nil, List.getElem?_eq_none hk] at hquote
    cases hquote
  | cons c r =>
    have hopens := opensAt_length_iff htext hgap
    have htext' : text = (before ++ [c]) ++ r := htext.trans (List.append_cons before c r)
    have hlen : (before ++ [c]).length = before.length + 1 := List.length_append
    have hhere : text[before.length]? = some c := by
      rw [htext]
      exact getElem?_length_append_cons before r c
    rw [maskFrom]
    split
    · next hopen =>
      obtain ⟨hquote, -⟩ := Bool.and_eq_true_iff.1 hopen
      split
      · next n hclose =>
        have hlast := firstFrom_of_closingAt? htext' hclose
        rw [hlen] at hlast
        obtain ⟨inside, after, rfl, hinside⟩ := exists_append_of_closingAt? hclose
        have hlen' : (before ++ c :: inside).length = before.length + 1 + n + 1 := by
          rw [List.length_append, List.length_cons, hinside]
          omega
        -- the quote that closed the span stands in front, and a quote is no gap
        have hgap' : false = true ↔ AfterGap text (before.length + 1 + n + 1) := by
          refine iff_of_false Bool.false_ne_true ?_
          rintro (hzero | ⟨d, hd, hdGap⟩)
          · cases hzero
          · rw [Nat.add_sub_cancel, hlast.1.2.1] at hd
            obtain rfl := Option.some.inj hd
            rw [isAsciiGap_quote hquote] at hdGap
            cases hdGap
        have hbehind : text = (before ++ c :: inside) ++ after := by
          rw [htext, List.append_assoc]
          rfl
        have hrest := ih after.length
          (by rw [← hlength, List.length_cons, List.length_append]; omega)
          hbehind (hlen'.symm ▸ hgap') rfl
        rw [hlen'] at hrest
        have hmask := hrest.span (hopens.2 hopen) hhere hlast
        rw [← hinside, maskFrom_length, hinside]
        exact hmask
      · next hclose =>
        have hnone := not_closesAt_of_closingAt? htext' hclose
        rw [hlen] at hnone
        exact masks_unclosed (hopens.2 hopen) hhere hnone _
    · next hopen =>
      have hgap' : Chars.isAsciiGap c = true ↔ AfterGap text (before ++ [c]).length := by
        rw [hlen, afterGap_length_iff htext]
      have hrest := ih r.length (by rw [← hlength]; exact Nat.lt_succ_self _) htext' hgap' rfl
      rw [hlen] at hrest
      exact hrest.skip fun h => hopen (hopens.1 h)

/-- **A text has quoted spans** (`Quoting`), and `quotedMask` covers them. -/
theorem masks_quotedMask (text : List Char) : Masks text 0 (quotedMask text) :=
  masks_maskFrom (List.nil_append text).symm (iff_of_true rfl (.inl rfl))

theorem exists_quoting (text : List Char) : ∃ spans, Quoting text 0 spans := by
  obtain ⟨spans, hspans, -⟩ := masks_quotedMask text
  exact ⟨spans, hspans⟩

/-- A place is masked exactly if a span covers it. -/
theorem Quoting.masked_iff {spans : List Span} (h : Quoting text 0 spans) (k : Nat) :
    (quotedMask text)[k]?.getD false = true ↔ ∃ s ∈ spans, s.Covers k := by
  obtain ⟨spans', hspans', hmask⟩ := masks_quotedMask text
  obtain rfl := h.unique hspans'
  rw [hmask k, Nat.zero_add]

end Mask

/-! ## Tokens and spans -/

/-- A token stands in a text at a place (`OccursAt`), and no quoted span covers any of it. -/
def OpenAt (spans : List Span) (token text : List Char) (place : Nat) : Prop :=
  OccursAt token text place ∧ ∀ s ∈ spans, place + token.length ≤ s.first ∨ s.last < place

/-- The places of an operator outside the quoted spans, counted from left to right without overlap
(`LeftToRight`). -/
def Places (text : List Char) (spans : List Span) (op : Operator) (places : List Nat) : Prop :=
  LeftToRight (OpenAt spans op.token text) op.token.length 0 places

section Tokens

variable {text : List Char} {spans : List Span} {place : Nat} {op : Operator}

/-- A token does not lie over a quote. -/
theorem not_within_token {quote : Char} (hquote : isQuote quote = true) {i : Nat}
    (hi : text[i]? = some quote) (h : OccursAt op.token text place) :
    i < place ∨ place + op.token.length ≤ i := by
  by_contra hwithin
  have hlt : i - place < op.token.length := by omega
  have hplace : place + (i - place) = i := by omega
  have hget := h.getElem? hlt
  rw [hplace, hi] at hget
  exact quote_not_mem_token hquote op (List.mem_of_getElem? hget.symm)

/-- **No token lies across the edge of a span**: it stands in front of the span, behind it, or
between its two quotes. -/
theorem Quoting.beside_or_within (hspans : Quoting text 0 spans)
    (h : OccursAt op.token text place) {s : Span} (hs : s ∈ spans) :
    place + op.token.length ≤ s.first ∨ s.last < place ∨
      s.first < place ∧ place + op.token.length ≤ s.last := by
  obtain ⟨-, hlt, quote, hquote, hfirst, hlast⟩ := hspans.of_mem hs
  have hbeginning := not_within_token hquote hfirst h
  have hend := not_within_token hquote hlast h
  omega

/-- What is found of a token is outside the spans exactly if its first character is not masked. -/
theorem Quoting.openAt_iff (hspans : Quoting text 0 spans) (op : Operator) (place : Nat) :
    OpenAt spans op.token text place ↔
      OccursAt op.token text place ∧ (!(quotedMask text)[place]?.getD false) = true := by
  refine and_congr_right fun h => ?_
  rw [Bool.not_eq_true', ← Bool.not_eq_true, hspans.masked_iff]
  constructor
  · rintro hbeside ⟨s, hs, hfirst, hlast⟩
    have hpos : 0 < op.token.length := List.length_pos_iff.2 op.token_ne_nil
    have hout := hbeside s hs
    omega
  · intro hnone s hs
    have hnot : ¬ s.Covers place := fun hcovers => hnone ⟨s, hs, hcovers⟩
    have hplace := hspans.beside_or_within h hs
    unfold Span.Covers at hnot
    omega

/-- **The places of an operator that are searched are those outside the spans**: `hits` is
`Places`. -/
theorem Quoting.places_hits (hspans : Quoting text 0 spans) (op : Operator) :
    Places text spans op (hits op text) := by
  refine (Chars.leftToRight_occurrences op.token_ne_nil text).filter
    (hspans.openAt_iff op) fun k l hk hmasked hl hle => ?_
  -- a masked token lies within a span, and an open one behind it only begins after the span
  have hnot : ¬ OpenAt spans op.token text k := by
    rw [hspans.openAt_iff, hmasked]
    exact fun h => Bool.false_ne_true h.2
  obtain ⟨s, hs, hwithin⟩ : ∃ s ∈ spans, s.first < k ∧ k + op.token.length ≤ s.last := by
    by_contra hnone
    refine hnot ⟨hk, fun s hs => ?_⟩
    have hplace := hspans.beside_or_within hk hs
    have hout : ¬ (s.first < k ∧ k + op.token.length ≤ s.last) := fun h => hnone ⟨s, hs, h⟩
    omega
  have hbehind := hl.2 s hs
  omega

theorem Quoting.places_iff (hspans : Quoting text 0 spans) {places : List Nat} :
    Places text spans op places ↔ hits op text = places :=
  ⟨fun h => (hspans.places_hits op).unique h, fun h => h ▸ hspans.places_hits op⟩

end Tokens

end RestCase.Condition
