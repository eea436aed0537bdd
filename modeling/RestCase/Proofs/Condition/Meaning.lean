/-
# RestCase.Proofs.Condition.Meaning — what a condition means

A condition is decided by one operator: of those that stand anywhere outside the quoted spans, the
one that comes first in the order of priority (`Leads`).  If it stands there once, with something on
either side, the condition compares the two sides, each without its quotes (`Bare`,
`unquote_eq_iff`); if it stands there more often, or a side is blank, the condition makes no sense.
Without an operator the condition is a bare word.

`Denotes` says this of a text and its spans, without a mask and without a search.  A text denotes
something (`exists_denotes`), and parsing finds whatever it denotes (`parseWith_of_denotes`); so
parsing is the same (`parse_eq_iff_denotes`), and no third induction is needed.
-/
import Mathlib.Order.WellFounded
import RestCase.Proofs.Condition.Spans

namespace RestCase

namespace Condition

open Chars (OccursAt)

/-! ## Operands -/

/-- The text has nothing but blanks. -/
def Blank (text : List Char) : Prop := ∀ c ∈ text, Chars.isBlank c = true

/-- An operand and what it is without one pair of equal quotes around it: what `unquote`
computes. -/
inductive Bare : List Char → List Char → Prop
  | quoted {quote : Char} (hquote : isQuote quote = true) (inner : List Char) :
      Bare (quoted quote inner) inner
  | plain {operand : List Char}
      (h : ∀ quote inner, isQuote quote = true → operand ≠ quoted quote inner) :
      Bare operand operand

theorem unquote_of_plain {operand : List Char}
    (h : ∀ quote inner, isQuote quote = true → operand ≠ quoted quote inner) :
    unquote operand = operand := by
  unfold unquote
  split
  · next c d r =>
    split
    · next hends =>
      obtain ⟨hquote, hlast⟩ := Bool.and_eq_true_iff.1 hends
      obtain ⟨inner, hinner⟩ := List.getLast?_eq_some_iff.1 (beq_iff_eq.1 hlast)
      exact absurd (congrArg (c :: ·) hinner) (h c inner hquote)
    · rfl
  · rfl

/-- **What an operand is without its quotes**: `unquote` gives the one text for which `Bare`
holds. -/
theorem unquote_eq_iff {operand inner : List Char} :
    unquote operand = inner ↔ Bare operand inner := by
  constructor
  · rintro rfl
    by_cases h : ∃ quote inner, isQuote quote = true ∧ operand = quoted quote inner
    · obtain ⟨quote, inner, hquote, rfl⟩ := h
      rw [unquote_quoted hquote]
      exact .quoted hquote inner
    · have hplain : ∀ quote inner, isQuote quote = true → operand ≠ quoted quote inner :=
        fun quote inner hquote heq => h ⟨quote, inner, hquote, heq⟩
      rw [unquote_of_plain hplain]
      exact .plain hplain
  · intro h
    cases h with
    | quoted hquote => exact unquote_quoted hquote inner
    | plain hplain => exact unquote_of_plain hplain

/-! ## Outcomes -/

/-- The operator stands outside the quoted spans (`OpenAt`), and none that comes before it does.
-/
structure Leads (text : List Char) (spans : List Span) (op : Operator) : Prop where
  exists_openAt : ∃ k, OpenAt spans op.token text k
  not_openAt : ∀ e : Operator, e.Precedes op → ∀ k, ¬ OpenAt spans e.token text k

/-- What a text with given quoted spans (`Quoting`) is as a condition: one constructor for each
outcome of `Expression.parse`. -/
inductive Denotes (text : List Char) (spans : List Span) : Except Fault Expression → Prop
  | word (h : ∀ (op : Operator) (k : Nat), ¬ OpenAt spans op.token text k) :
      Denotes text spans (.ok (.literal (Chars.sameIgnoringCase text "true".toList)))
  | repeated {op : Operator} {places : List Nat} (hop : Leads text spans op)
      (hplaces : Places text spans op places) (hmany : 1 < places.length) :
      Denotes text spans (.error (.repeated op places.length text))
  | missing {op : Operator} {left right : List Char} (hop : Leads text spans op)
      (htext : text = left ++ op.token ++ right) (hplaces : Places text spans op [left.length])
      (hblank : Blank left ∨ Blank right) :
      Denotes text spans (.error (.missingOperand op text))
  | comparison {op : Operator} {left right l r : List Char} (hop : Leads text spans op)
      (htext : text = left ++ op.token ++ right) (hplaces : Places text spans op [left.length])
      (hleft : ¬ Blank left) (hright : ¬ Blank right) (hl : Bare (Chars.trim left) l)
      (hr : Bare (Chars.trim right) r) : Denotes text spans (.ok (.compare l op r))

/-- The operator that an outcome is about. -/
def chosen? : Except Fault Expression → Option Operator
  | .ok (.compare _ op _) => some op
  | .ok (.literal _) => none
  | .error (.missingOperand op _) => some op
  | .error (.repeated op _ _) => some op

section Outcomes

variable {text : List Char} {spans : List Span} {op : Operator} {outcome : Except Fault Expression}

theorem Denotes.leads (h : Denotes text spans outcome) (hop : chosen? outcome = some op) :
    Leads text spans op := by
  cases h with
  | word => cases hop
  | repeated h | missing h | comparison h => exact Option.some.inj hop ▸ h

/-- An operator has no `hits` exactly if it stands nowhere outside the spans (`OpenAt`). -/
theorem Quoting.hits_eq_nil_iff (hspans : Quoting text 0 spans) (op : Operator) :
    hits op text = [] ↔ ∀ k, ¬ OpenAt spans op.token text k := by
  rw [← hspans.places_iff]
  constructor
  · intro h
    cases h with
    | none hnone => exact fun k => hnone k (Nat.zero_le k)
  · exact fun h => .none fun k _ => h k

/-- **A text denotes an outcome**: of the operators that stand outside the spans, the first in the
order of priority is the one that `Leads`. -/
theorem exists_denotes (hspans : Quoting text 0 spans) :
    ∃ outcome, Denotes text spans outcome := by
  by_cases hnone : ∀ (op : Operator) (k : Nat), ¬ OpenAt spans op.token text k
  · exact ⟨_, .word hnone⟩
  -- of the operators that stand outside the spans, take the first in the order of priority
  simp only [not_forall, not_not] at hnone
  obtain ⟨op, hopen, hfirst⟩ :=
    (measure fun op : Operator => Operator.priority.idxOf op).wf.has_min
      {op | ∃ k, OpenAt spans op.token text k} hnone
  have hop : Leads text spans op := ⟨hopen, fun e he k hk => hfirst e ⟨k, hk⟩ he⟩
  have hplaces := hspans.places_hits op
  rcases hhits : hits op text with - | ⟨place, - | ⟨next, places⟩⟩
  · obtain ⟨k, hk⟩ := hopen
    exact absurd hk ((hspans.hits_eq_nil_iff op).1 hhits k)
  · rw [hhits] at hplaces
    have hplace : OpenAt spans op.token text place := by
      cases hplaces with
      | found h => exact h.1.2
    obtain ⟨left, right, htext, rfl⟩ := hplace.1.exists_eq_append op.token_ne_nil
    by_cases hblank : Blank left ∨ Blank right
    · exact ⟨_, .missing hop htext hplaces hblank⟩
    · obtain ⟨hleft, hright⟩ := not_or.1 hblank
      exact ⟨_, .comparison hop htext hplaces hleft hright (unquote_eq_iff.1 rfl)
        (unquote_eq_iff.1 rfl)⟩
  · rw [hhits] at hplaces
    exact ⟨_, .repeated hop hplaces (Nat.succ_lt_succ (Nat.succ_pos _))⟩

/-- An operator that `Leads` is the first that a parse finds. -/
theorem parseWith_of_leads (hspans : Quoting text 0 spans) (hop : Leads text spans op) :
    ∃ later, parseWith text Operator.priority = parseWith text (op :: later) := by
  obtain ⟨earlier, later, hpriority, hearlier⟩ := op.exists_precedes
  refine ⟨later, ?_⟩
  rw [hpriority]
  exact parseWith_append
    (fun e he => (hspans.hits_eq_nil_iff e).2 (hop.not_openAt e (hearlier e he).1)) _

/-- Nothing is left of one of the two sides exactly if it is blank. -/
theorem isEmpty_trim_or_iff {left right : List Char} :
    ((Chars.trim left).isEmpty || (Chars.trim right).isEmpty) = true ↔
      Blank left ∨ Blank right := by
  rw [Bool.or_eq_true, List.isEmpty_iff, List.isEmpty_iff]
  exact or_congr (Chars.trim_eq_nil_iff left) (Chars.trim_eq_nil_iff right)

/-- An operator that leads and stands in one place only cuts the text there. -/
theorem parseWith_of_single {left right : List Char}
    (hspans : Quoting (left ++ op.token ++ right) 0 spans)
    (hop : Leads (left ++ op.token ++ right) spans op)
    (hplaces : Places (left ++ op.token ++ right) spans op [left.length]) :
    parseWith (left ++ op.token ++ right) Operator.priority =
      if (Chars.trim left).isEmpty || (Chars.trim right).isEmpty then
        .error (.missingOperand op (left ++ op.token ++ right))
      else .ok (.compare (unquote (Chars.trim left)) op (unquote (Chars.trim right))) := by
  obtain ⟨later, hparse⟩ := parseWith_of_leads hspans hop
  rw [hparse, parseWith, hspans.places_iff.1 hplaces]
  exact compareAt_append left op right

/-- **Parsing finds what a text denotes**: `parseWith` comes to every outcome that it `Denotes`. -/
theorem parseWith_of_denotes (hspans : Quoting text 0 spans) (h : Denotes text spans outcome) :
    parseWith text Operator.priority = outcome := by
  cases h with
  | word hnone =>
    exact parseWith_eq_literal_iff.2
      ⟨fun op _ => (hspans.hits_eq_nil_iff op).2 (hnone op), rfl⟩
  | @repeated op places hop hplaces hmany =>
    obtain ⟨later, hparse⟩ := parseWith_of_leads hspans hop
    rw [hparse, parseWith, hspans.places_iff.1 hplaces]
    -- more than one place leaves only the last of the three cases
    rcases places with - | ⟨first, - | ⟨second, places⟩⟩
    · cases hmany
    · exact absurd hmany (Nat.lt_irrefl 1)
    · rfl
  | @missing op left right hop htext hplaces hblank =>
    subst htext
    rw [parseWith_of_single hspans hop hplaces, if_pos (isEmpty_trim_or_iff.2 hblank)]
  | @comparison op left right l r hop htext hplaces hleft hright hl hr =>
    subst htext
    have hfull := mt isEmpty_trim_or_iff.1 (not_or.2 ⟨hleft, hright⟩)
    rw [parseWith_of_single hspans hop hplaces, if_neg hfull, unquote_eq_iff.2 hl,
      unquote_eq_iff.2 hr]

end Outcomes

/-- **Parsing is decided by the first operator outside the quoted spans.**  A trimmed text has one
list of spans (`Quoting`), and `Expression.parse` gives exactly that outcome which it `Denotes`
with them.  No token lies across the edge of a span, and an outcome is never about `>` or `<`
where `>=` or `<=` stands outside the spans. -/
theorem parse_eq_iff_denotes (t : String) :
    ∃ spans, Quoting (Chars.trim t.toList) 0 spans ∧
      (∀ spans', Quoting (Chars.trim t.toList) 0 spans' → spans' = spans) ∧
      (∀ outcome, Expression.parse t = outcome ↔ Denotes (Chars.trim t.toList) spans outcome) ∧
      (∀ (op : Operator) (place : Nat), OccursAt op.token (Chars.trim t.toList) place →
        ∀ s ∈ spans, place + op.token.length ≤ s.first ∨ s.last < place ∨
          s.first < place ∧ place + op.token.length ≤ s.last) ∧
      ((∃ k, OpenAt spans Operator.ge.token (Chars.trim t.toList) k ∨
          OpenAt spans Operator.le.token (Chars.trim t.toList) k) →
        chosen? (Expression.parse t) ≠ some .gt ∧ chosen? (Expression.parse t) ≠ some .lt) := by
  obtain ⟨spans, hspans⟩ := exists_quoting (Chars.trim t.toList)
  -- parsing finds whatever the text denotes, and it denotes something: that is what was found
  have hiff : ∀ outcome,
      Expression.parse t = outcome ↔ Denotes (Chars.trim t.toList) spans outcome := by
    refine fun outcome => ⟨?_, parseWith_of_denotes hspans⟩
    rintro rfl
    obtain ⟨outcome, houtcome⟩ := exists_denotes hspans
    rwa [show Expression.parse t = outcome from parseWith_of_denotes hspans houtcome]
  have hlead : ∀ op, chosen? (Expression.parse t) = some op →
      Leads (Chars.trim t.toList) spans op := fun op => ((hiff _).1 rfl).leads
  refine ⟨spans, hspans, fun spans' h => h.unique hspans, hiff,
    fun op place h s hs => hspans.beside_or_within h hs, ?_⟩
  rintro ⟨k, hk⟩
  have hnever : ∀ op, Operator.ge.Precedes op → Operator.le.Precedes op →
      chosen? (Expression.parse t) ≠ some op := by
    intro op hge hle hop
    rcases hk with hopen | hopen
    · exact (hlead op hop).not_openAt .ge hge k hopen
    · exact (hlead op hop).not_openAt .le hle k hopen
  exact ⟨hnever .gt (by decide) (by decide), hnever .lt (by decide) (by decide)⟩

/-- An operator between quotes is passed over, and an apostrophe in a word is no quote. -/
example : Expression.parse " 'a > b' >= it's" =
    .ok (.compare "a > b".toList .ge "it's".toList) := by
  rfl

end Condition

end RestCase
