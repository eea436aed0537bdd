/-
# RestCase.Proofs.Condition.Adjacency — quoted operands next to their operator

`closingAt?` closes an operand only before a gap or the end of the text, so that an apostrophe in a
word is no quote.  For the same reason a quote with an operator right behind it closes nothing: the
operand that it should end goes on, over the operator, to the next quote before a gap.  Where no gap
stands behind the opening quote of the other operand, that is the end of the text, and the condition
is a bare word that is not `true`.  Where one stands there, the other operand is open to the search,
and an operator in it is taken for the operator of the condition.

It is the blank in front of the operator that closes the left operand, and the blank behind it that
lets the right one open.  So there are four ways to write a comparison, and each is settled here:

* a blank on either side: `parse_comparison`, the two texts are compared;
* none, or one behind only: `quotedMask_joined` and `hits_joined`, the comparison is never read
  (`parse_comparison_needs_blanks`, `parse_blank_behind`);
* one in front only: `hits_blankBefore`, the right text is searched like any other, and the
  comparison is read exactly if nothing is found there that decides first (`parse_blank_before`).

Boundary: only marks (`Operator.isMark`) are looked at.  An operator that is a word has its blanks
in its token, and without them it is not found at all.
-/
import Mathlib.Tactic.ByContra
import RestCase.Proofs.Condition.Quoting

namespace RestCase

namespace Operator

/-- The operator is a mark, and no word between blanks. -/
def isMark : Operator → Bool
  | eq | ne | ge | le | gt | lt => true
  | contains | startsWith | endsWith => false

/-- A mark begins with no gap, whatever follows it. -/
theorem head_token_append {op : Operator} (h : op.isMark = true) (rest : List Char) :
    ((op.token ++ rest).head?.map Chars.isAsciiGap).getD true = false := by
  cases op with
  | eq | ne | ge | le | gt | lt => rfl
  | contains | startsWith | endsWith => cases h

/-- What comes before an operator in the order of priority stands before it in the list. -/
theorem Precedes.mem_earlier {first second : Operator} (h : first.Precedes second)
    {earlier later : List Operator} (hpriority : priority = earlier ++ second :: later) :
    first ∈ earlier := by
  by_contra hfirst
  have hlt : priority.idxOf first < priority.idxOf second := h
  rw [hpriority, List.idxOf_append, List.idxOf_append, if_neg hfirst, List.idxOf_cons_self] at hlt
  split at hlt
  · next hsecond =>
    have hin := List.idxOf_lt_length_of_mem hsecond
    omega
  · omega

end Operator

namespace Condition

/-- Two quoted texts with an operator between them and no blanks. -/
def adjacent (quote : Char) (left : List Char) (op : Operator) (right : List Char) : List Char :=
  quoted quote left ++ (op.token ++ quoted quote right)

/-- Two quoted texts with an operator between them and a blank behind it only. -/
def blankBehind (quote : Char) (left : List Char) (op : Operator) (right : List Char) : List Char :=
  quoted quote left ++ (op.token ++ ' ' :: quoted quote right)

/-- Two quoted texts with an operator between them and a blank in front of it only. -/
def blankBefore (quote : Char) (left : List Char) (op : Operator) (right : List Char) : List Char :=
  quoted quote left ++ (' ' :: (op.token ++ quoted quote right))

/-- Two quoted texts with some text between them; `adjacent` and `blankBehind` put an operator
there. -/
def joined (quote : Char) (left between right : List Char) : List Char :=
  quoted quote left ++ (between ++ quoted quote right)

/-- Everything up to the quote that opens the right text. -/
def opening (quote : Char) (left between : List Char) : List Char :=
  quote :: (left ++ quote :: (between ++ [quote]))

/-- The text begins with a gap. -/
def beginsWithGap (text : List Char) : Bool := (text.head?.map Chars.isAsciiGap).getD false

/-- A text that keeps a quote in front of it from closing anything (`closingAt?`), and is no quote
itself. -/
structure Abuts (quote : Char) (between : List Char) : Prop where
  not_gap : ∀ rest, ((between ++ rest).head?.map Chars.isAsciiGap).getD true = false
  quote_not_mem : quote ∉ between

section Joined

variable {quote : Char} {text rest left between right : List Char} {op : Operator}

/-- A mark abuts on the quote before it, with or without a blank behind. -/
theorem Abuts.mark (hquote : isQuote quote = true) (hop : op.isMark = true) :
    Abuts quote op.token ∧ Abuts quote (op.token ++ [' ']) := by
  have hmem : quote ∉ op.token := quote_not_mem_token hquote op
  have hblank : quote ∉ [' '] := by
    rcases eq_of_isQuote hquote with rfl | rfl <;> decide
  refine ⟨⟨Operator.head_token_append hop, hmem⟩, fun rest => ?_, ?_⟩
  · rw [List.append_assoc]
    exact Operator.head_token_append hop _
  · exact List.not_mem_append hmem hblank

/-- A text without quotes does not have one. -/
theorem quote_not_mem (hquote : isQuote quote = true) (htext : ∀ c ∈ text, isQuote c = false) :
    quote ∉ text := by
  intro hmem
  rw [htext quote hmem] at hquote
  cases hquote

theorem adjacent_eq_joined : adjacent quote left op right = joined quote left op.token right :=
  rfl

theorem blankBehind_eq_joined :
    blankBehind quote left op right = joined quote left (op.token ++ [' ']) right := by
  simp [blankBehind, joined]

theorem joined_eq (quote : Char) (left between right : List Char) :
    joined quote left between right = opening quote left between ++ (right ++ [quote]) := by
  simp [joined, opening, quoted]

theorem length_joined (quote : Char) (left between right : List Char) :
    (joined quote left between right).length =
      (opening quote left between).length + right.length + 1 := by
  rw [joined_eq, List.length_append, List.length_append, List.length_singleton, Nat.add_assoc]

/-! ## The mask -/

/-- A quote that stands before no gap closes nothing. -/
theorem closingAt?_append_of_not_gap (htext : quote ∉ text)
    (hrest : (rest.head?.map Chars.isAsciiGap).getD true = false) :
    closingAt? quote (text ++ quote :: rest) =
      (closingAt? quote rest).map (· + (text.length + 1)) := by
  have hhere : closingAt? quote (quote :: rest) = (closingAt? quote rest).map (· + 1) := by
    apply if_neg
    rw [hrest]
    exact fun h => Bool.false_ne_true h.2
  rw [closingAt?_append_of_not_mem htext, hhere, Option.map_map]
  congr 1
  funext n
  show n + 1 + text.length = n + (text.length + 1)
  omega

/-- A text without quotes is not masked, nor is a quote at its end that nothing closes. -/
theorem maskFrom_unquoted (gap : Bool) (htext : ∀ c ∈ text, isQuote c = false) (quote : Char) :
    maskFrom 0 gap (text ++ [quote]) = List.replicate (text.length + 1) false := by
  induction text generalizing gap with
  | nil =>
    rw [List.nil_append, maskFrom]
    split <;> rfl
  | cons c r ih =>
    rw [List.cons_append, maskFrom, htext c List.mem_cons_self, Bool.false_and,
      if_neg Bool.false_ne_true, ih _ fun d hd => htext d (List.mem_cons_of_mem c hd)]
    rfl

/-- Where the first operand is closed that something `Abuts` on: at the opening quote of the other
operand, if a gap follows that, and else at its closing quote. -/
theorem closingAt?_joined (hquote : isQuote quote = true) (hbetween : Abuts quote between)
    (hleft : quote ∉ left) (hright : quote ∉ right) :
    closingAt? quote (left ++ quote :: (between ++ quote :: (right ++ [quote]))) =
      some (if beginsWithGap right then left.length + between.length + 1
        else left.length + between.length + right.length + 2) := by
  have hgap : ((right ++ [quote]).head?.map Chars.isAsciiGap).getD true = beginsWithGap right := by
    cases right with
    | nil => exact isAsciiGap_quote hquote
    | cons d t => rfl
  rw [closingAt?_append_of_not_gap hleft (hbetween.not_gap _)]
  -- the quote before the right text closes the operand only before a gap
  cases h : beginsWithGap right with
  | true =>
    rw [closingAt?_append hbetween.quote_not_mem (hgap.trans h), Option.map_some, if_pos rfl]
    congr 1
    omega
  | false =>
    rw [closingAt?_append_of_not_gap hbetween.quote_not_mem (hgap.trans h),
      closingAt?_append hright rfl, Option.map_some, Option.map_some, if_neg Bool.false_ne_true]
    congr 1
    omega

/-- **What is masked of two quoted texts with something between them** that `Abuts`: everything,
or all but what follows the opening quote of the right text, if that text begins with a gap. -/
theorem quotedMask_joined (hquote : isQuote quote = true) (hbetween : Abuts quote between)
    (hleft : quote ∉ left) (hright : ∀ c ∈ right, isQuote c = false) :
    quotedMask (joined quote left between right) =
      List.replicate (opening quote left between).length true ++
        List.replicate (right.length + 1) (!beginsWithGap right) := by
  have hclose := closingAt?_joined hquote hbetween hleft (quote_not_mem hquote hright)
  have hopening : (opening quote left between).length = left.length + between.length + 1 + 2 := by
    simp only [opening, List.length_cons, List.length_append, List.length_nil]
    omega
  have hcut : joined quote left between right =
      quote :: (left ++ quote :: (between ++ quote :: (right ++ [quote]))) := by
    simp [joined, quoted]
  unfold quotedMask
  rw [hcut, hopening]
  cases hgap : beginsWithGap right with
  | true =>
    -- the quote that was to open the right text closes the left one, and none is left for the right
    have htext : left ++ quote :: (between ++ quote :: (right ++ [quote])) =
        (left ++ quote :: (between ++ [quote])) ++ (right ++ [quote]) := by simp
    rw [hgap, if_pos rfl, htext] at hclose
    rw [htext, maskFrom_closed hquote hclose, maskFrom_unquoted false hright]
    · rfl
    · simp only [List.length_append, List.length_cons, List.length_nil]
      omega
  | false =>
    -- the last quote closes what the first one opened
    rw [hgap, if_neg Bool.false_ne_true, ← List.append_nil (left ++ _)] at hclose
    have hmask := maskFrom_closed hquote hclose (by
      simp only [List.length_append, List.length_cons, List.length_nil]
      omega)
    rw [List.append_nil] at hmask
    have hsum : left.length + between.length + right.length + 2 + 2 =
        left.length + between.length + 1 + 2 + (right.length + 1) := by omega
    rw [hmask, hsum, ← List.replicate_append_replicate]
    exact List.append_nil _

/-- A place is masked iff it lies before the right text, or that text does not begin with a gap. -/
theorem masked_joined_iff (hquote : isQuote quote = true) (hbetween : Abuts quote between)
    (hleft : quote ∉ left) (hright : ∀ c ∈ right, isQuote c = false) {i : Nat}
    (hi : i < (joined quote left between right).length) :
    (quotedMask (joined quote left between right))[i]?.getD false = true ↔
      i < (opening quote left between).length ∨ beginsWithGap right = false := by
  rw [length_joined] at hi
  rw [quotedMask_joined hquote hbetween hleft hright, List.getElem?_append, List.length_replicate]
  split
  · next h => simp [h]
  · next h =>
    have hin : i - (opening quote left between).length < right.length + 1 := by omega
    simp [h, hin]

/-! ## The operators -/

/-- What is found in two quoted texts with something between them is found before the right text or
in it: no operator reaches across a quote. -/
theorem occurrences_joined (hquote : isQuote quote = true) (left between right : List Char)
    (wanted : Operator) :
    ∃ before, (∀ i ∈ before, i < (opening quote left between).length) ∧
      Chars.occurrences wanted.token (joined quote left between right) =
        before ++ (Chars.occurrences wanted.token right).map
          ((opening quote left between).length + ·) := by
  have hlenLeft : (quoted quote left).length = left.length + 2 := by simp [quoted]
  have hlen : (quoted quote left).length + between.length + 1 =
      (opening quote left between).length := by
    simp only [hlenLeft, opening, List.length_cons, List.length_append, List.length_nil]
    omega
  have hparts : Chars.occurrences wanted.token (joined quote left between right) = _ :=
    occurrences_quoted_append hquote left between right wanted
  refine ⟨Chars.occurrencesFrom wanted.token 0 1 left ++
    Chars.occurrencesFrom wanted.token 0 (quoted quote left).length between, fun i hi => ?_, ?_⟩
  · rcases List.mem_append.1 hi with h | h
    · have hlt := (Chars.mem_occurrencesFrom h).2
      omega
    · have hlt := (Chars.mem_occurrencesFrom h).2
      omega
  · rw [hparts, hlen, Chars.occurrencesFrom_eq_map 0 (opening quote left between).length,
      List.append_assoc]
    rfl

/-- **Only the text behind what abuts can have an operator**, and only if it `beginsWithGap`. -/
theorem hits_joined (hquote : isQuote quote = true) (hbetween : Abuts quote between)
    (hleft : quote ∉ left) (hright : ∀ c ∈ right, isQuote c = false) (wanted : Operator) :
    hits wanted (joined quote left between right) =
      if beginsWithGap right then
        (Chars.occurrences wanted.token right).map ((opening quote left between).length + ·)
      else [] := by
  obtain ⟨before, hbefore, hfound⟩ := occurrences_joined hquote left between right wanted
  have hmask : ∀ i ∈ Chars.occurrences wanted.token (joined quote left between right),
      ((quotedMask (joined quote left between right))[i]?.getD false = true ↔
        i < (opening quote left between).length ∨ beginsWithGap right = false) := by
    intro i hi
    have hlt := (Chars.mem_occurrencesFrom hi).2
    exact masked_joined_iff hquote hbetween hleft hright (by omega)
  split
  · next hgap =>
    have hparts := hfound
    rw [← List.append_nil (List.map _ _)] at hparts
    apply hits_eq_of_parts hparts
    · intro i hi
      exact (hmask i (hfound ▸ List.mem_append_left _ hi)).2 (.inl (hbefore i hi))
    · intro i hi
      rw [hmask i (hfound ▸ List.mem_append_right _ hi), hgap]
      obtain ⟨k, -, rfl⟩ := List.mem_map.1 hi
      simp
    · exact List.forall_mem_nil _
  · next hgap =>
    -- everything is masked
    apply hits_eq_of_parts (List.append_nil _).symm _ (List.forall_mem_nil _)
      (List.forall_mem_nil _)
    intro i hi
    exact (hmask i hi).2 (.inr (Bool.eq_false_iff.2 hgap))

/-! ## A blank in front -/

/-- A mark behind a blank is not masked by `maskFrom`, and no quote opens right behind it. -/
theorem maskFrom_afterBlank (hop : op.isMark = true) (rest : List Char) :
    maskFrom 0 false (' ' :: (op.token ++ rest)) =
      List.replicate (op.token.length + 1) false ++ maskFrom 0 false rest := by
  cases op with
  | eq | ne | ge | le | gt | lt => rfl
  | contains | startsWith | endsWith => cases hop

/-- **A blank in front closes the left operand** (`blankBefore`), and all that follows is open. -/
theorem quotedMask_blankBefore (hquote : isQuote quote = true) (hop : op.isMark = true)
    (hleft : quote ∉ left) (hright : ∀ c ∈ right, isQuote c = false) :
    quotedMask (blankBefore quote left op right) =
      List.replicate (quoted quote left).length true ++
        List.replicate (op.token.length + 1 + (quoted quote right).length) false := by
  have hopen : maskFrom 0 false (quoted quote right) =
      List.replicate (quoted quote right).length false := by
    -- behind a mark the quote opens nothing
    rw [quoted, maskFrom, Bool.and_false, if_neg Bool.false_ne_true, isAsciiGap_quote hquote,
      maskFrom_unquoted false hright]
    simp [List.replicate_succ]
  unfold quotedMask blankBefore
  rw [maskFrom_quoted hquote hleft rfl, maskFrom_afterBlank hop, hopen,
    List.replicate_append_replicate]

/-- Behind its blank a mark is found once, and nothing that comes before it. -/
theorem occurrences_afterBlank (hop : op.isMark = true) :
    Chars.occurrences op.token (' ' :: op.token) = [1] ∧
      ∀ wanted : Operator, wanted.Precedes op →
        Chars.occurrences wanted.token (' ' :: op.token) = [] := by
  cases op with
  | eq | ne | ge | le | gt | lt =>
    refine ⟨by decide, fun wanted h => ?_⟩
    revert h
    cases wanted <;> decide
  | contains | startsWith | endsWith => cases hop

/-- **What is found where a blank stands in front only**: `hits` has the operator in its place,
and whatever the right text has. -/
theorem hits_blankBefore (hquote : isQuote quote = true) (hop : op.isMark = true)
    (hleft : quote ∉ left) (hright : ∀ c ∈ right, isQuote c = false) (wanted : Operator) :
    hits wanted (blankBefore quote left op right) =
      (Chars.occurrences wanted.token (' ' :: op.token)).map ((quoted quote left).length + ·) ++
        (Chars.occurrences wanted.token right).map
          ((quoted quote left).length + op.token.length + 2 + ·) := by
  have hlenLeft : (quoted quote left).length = left.length + 2 := by simp [quoted]
  have hlen : (quoted quote left).length + (' ' :: op.token).length + 1 =
      (quoted quote left).length + op.token.length + 2 := rfl
  have hparts : Chars.occurrences wanted.token (blankBefore quote left op right) = _ :=
    occurrences_quoted_append hquote left (' ' :: op.token) right wanted
  rw [hlen, Chars.occurrencesFrom_eq_map 0 (quoted quote left).length,
    Chars.occurrencesFrom_eq_map 0 ((quoted quote left).length + op.token.length + 2),
    ← List.append_nil (_ ++ List.map _ _)] at hparts
  refine hits_eq_of_parts hparts (fun i hi => ?_) (fun i hi => ?_) (List.forall_mem_nil _)
  · have hlt := (Chars.mem_occurrencesFrom hi).2
    have hin : i < (quoted quote left).length := by omega
    rw [quotedMask_blankBefore hquote hop hleft hright, List.getElem?_append_left (by simpa),
      List.getElem?_replicate_of_lt hin]
    rfl
  · have hge : (quoted quote left).length ≤ i := by
      rcases List.mem_append.1 hi with h | h
      · obtain ⟨k, -, rfl⟩ := List.mem_map.1 h
        exact Nat.le_add_right _ _
      · obtain ⟨k, -, rfl⟩ := List.mem_map.1 h
        omega
    rw [quotedMask_blankBefore hquote hop hleft hright, List.getElem?_append_right (by simpa),
      List.getElem?_replicate]
    split <;> simp

end Joined

/-! ## Parsing -/

/-- The operator of a comparison was found once in its text, those before it in the list were not,
and what stands before it is the left operand. -/
theorem exists_hit_of_parseWith {text left right : List Char} {op : Operator}
    {ops : List Operator} (h : parseWith text ops = .ok (.compare left op right)) :
    ∃ earlier later place, ops = earlier ++ op :: later ∧ (∀ e ∈ earlier, hits e text = []) ∧
      hits op text = [place] ∧ left = unquote (Chars.trim (text.take place)) := by
  induction ops with
  | nil => cases h
  | cons first ops ih =>
    rw [parseWith] at h
    split at h
    next hnone =>
      obtain ⟨earlier, later, place, rfl, hearlier, hrest⟩ := ih h
      exact ⟨first :: earlier, later, place, rfl, List.forall_mem_cons.2 ⟨hnone, hearlier⟩, hrest⟩
    next place hplace =>
      unfold compareAt at h
      simp only at h
      split at h
      · cases h
      · obtain ⟨rfl, rfl, -⟩ := Expression.compare.inj (Except.ok.inj h)
        exact ⟨[], ops, place, rfl, List.forall_mem_nil _, hplace, rfl⟩
    next => cases h

/-- Whatever stands between the ends of an operand is in it without its quotes (`unquote`). -/
theorem mem_unquote {operand : List Char} {c : Char} (h : c ∈ (operand.drop 1).dropLast) :
    c ∈ unquote operand := by
  have hmem : c ∈ operand :=
    (List.drop_suffix 1 operand).subset ((List.dropLast_prefix _).subset h)
  unfold unquote
  split
  · split
    · exact h
    · exact hmem
  · exact hmem

section Comparisons

variable {quote : Char} {left between right : List Char} {op : Operator}

/-- Cut behind what stands between them, two quoted texts have a left operand with the quotes that
were to close and to open an operand. -/
theorem quote_mem_of_cut (hquote : isQuote quote = true) (n : Nat) :
    quote ∈ unquote (Chars.trim
      ((joined quote left between right).take ((opening quote left between).length + n))) := by
  have htake : (joined quote left between right).take ((opening quote left between).length + n) =
      opening quote left between ++ (right ++ [quote]).take n := by
    rw [joined_eq, List.take_length_add_append]
  have hlast : (opening quote left between).getLast? = some quote := by
    simp [opening, List.getLast?_cons, List.getLast?_append]
  obtain ⟨rest, htrim⟩ := Chars.exists_trim_append rfl (isBlank_quote hquote) hlast
    (isBlank_quote hquote) ((right ++ [quote]).take n)
  rw [htake, htrim]
  -- taking one pair of quotes away leaves the closing quote of the left text
  refine mem_unquote ?_
  have hcut : (opening quote left between ++ rest).drop 1 =
      left ++ (quote :: (between ++ quote :: rest)) := by
    simp [opening]
  rw [hcut, List.dropLast_append_of_ne_nil (List.cons_ne_nil _ _), List.dropLast_cons_of_ne_nil
    (List.append_ne_nil_of_right_ne_nil _ (List.cons_ne_nil _ _))]
  exact List.mem_append_right _ List.mem_cons_self

/-- Two quoted texts with something between them are parsed as they are: nothing is trimmed before
`parseWith` sees them. -/
theorem parse_joined (hquote : isQuote quote = true) :
    Expression.parse (String.ofList (joined quote left between right)) =
      parseWith (joined quote left between right) Operator.priority := by
  exact parse_ofList ((trimmed_quoted hquote left).append (trimmed_quoted hquote right) between)

/-- A comparison that two quoted texts with something between them are taken for has its operator
from within the right text, and a left operand with a quote in it. -/
theorem parse_joined_compare (hquote : isQuote quote = true) (hbetween : Abuts quote between)
    (hleft : quote ∉ left) (hright : ∀ c ∈ right, isQuote c = false) {l r : List Char}
    {wanted : Operator}
    (h : Expression.parse (String.ofList (joined quote left between right)) =
      .ok (.compare l wanted r)) :
    quote ∈ l ∧ beginsWithGap right = true ∧ wanted.token <:+: right := by
  rw [parse_joined hquote] at h
  obtain ⟨-, -, place, -, -, hplace, rfl⟩ := exists_hit_of_parseWith h
  rw [hits_joined hquote hbetween hleft hright wanted] at hplace
  split at hplace
  · next hgap =>
    -- the operator stands in the right text, so the left operand reaches into it
    have hmem : place ∈ (Chars.occurrences wanted.token right).map
        ((opening quote left between).length + ·) := hplace ▸ List.mem_cons_self
    obtain ⟨n, hn, rfl⟩ := List.mem_map.1 hmem
    refine ⟨quote_mem_of_cut hquote n, hgap, ?_⟩
    by_contra hmiss
    rw [Chars.occurrences,
      (Chars.occurrencesFrom_eq_nil_iff wanted.token_ne_nil 0 right).2 hmiss] at hn
    cases hn
  · cases hplace

/-- Two quoted texts with something between them are false as a bare word, exactly if the right
text begins with no gap or holds no operator. -/
theorem parse_joined_literal_iff (hquote : isQuote quote = true) (hbetween : Abuts quote between)
    (hleft : quote ∉ left) (hright : ∀ c ∈ right, isQuote c = false) :
    Expression.parse (String.ofList (joined quote left between right)) = .ok (.literal false) ↔
      beginsWithGap right = false ∨ ∀ wanted : Operator, ¬ wanted.token <:+: right := by
  have hword : Chars.sameIgnoringCase (joined quote left between right) "true".toList = false := by
    rcases eq_of_isQuote hquote with rfl | rfl <;> rfl
  have hhits := hits_joined hquote hbetween hleft hright
  rw [parse_joined hquote, parseWith_eq_literal_iff, hword]
  simp only [and_true]
  constructor
  · intro h
    cases hgap : beginsWithGap right with
    | false => exact .inl rfl
    | true =>
      refine .inr fun wanted => ?_
      have hnone := h wanted (mem_priority wanted)
      rw [hhits, hgap, if_pos rfl, List.map_eq_nil_iff] at hnone
      exact (Chars.occurrencesFrom_eq_nil_iff wanted.token_ne_nil 0 right).1 hnone
  · rintro (hgap | hmiss) wanted -
    · rw [hhits, hgap, if_neg Bool.false_ne_true]
    · have hnone : Chars.occurrences wanted.token right = [] :=
        (Chars.occurrencesFrom_eq_nil_iff wanted.token_ne_nil 0 right).2 (hmiss wanted)
      rw [hhits, hnone, List.map_nil, ite_self]

/-- **Between quotes an operator needs its blanks.**  With one blank on either side the comparison
of the two texts is read.  Without them it never is: the condition is false as a bare word, exactly
if the right text begins with no gap or holds no operator, and whatever comparison it is taken for
otherwise has its operator from within the right text, and a left operand with a quote in it.
`parse_blank_behind` and `parse_blank_before` settle the condition with one blank of the two. -/
theorem parse_comparison_needs_blanks (hquote : isQuote quote = true) (hop : op.isMark = true)
    (hleft : ∀ c ∈ left, isQuote c = false) (hright : ∀ c ∈ right, isQuote c = false) :
    Expression.parse (String.ofList (comparison quote left op right)) =
      .ok (.compare left op right) ∧
    Expression.parse (String.ofList (adjacent quote left op right)) ≠
      .ok (.compare left op right) ∧
    (Expression.parse (String.ofList (adjacent quote left op right)) = .ok (.literal false) ↔
      beginsWithGap right = false ∨ ∀ wanted : Operator, ¬ wanted.token <:+: right) ∧
    (∀ l wanted r,
      Expression.parse (String.ofList (adjacent quote left op right)) = .ok (.compare l wanted r) →
      quote ∈ l ∧ beginsWithGap right = true ∧ wanted.token <:+: right) := by
  have hleft' : quote ∉ left := quote_not_mem hquote hleft
  have hright' : quote ∉ right := quote_not_mem hquote hright
  obtain ⟨habuts, -⟩ := Abuts.mark hquote hop
  rw [adjacent_eq_joined]
  refine ⟨parse_comparison hquote hleft' hright', ?_,
    parse_joined_literal_iff hquote habuts hleft' hright,
    fun l wanted r h => parse_joined_compare hquote habuts hleft' hright h⟩
  intro h
  exact hleft' (parse_joined_compare hquote habuts hleft' hright h).1

end Comparisons

/-- Without blanks an operator in the right text is taken for the operator of the condition. -/
theorem parse_comparison_needs_blanks_openOperand :
    (isQuote '\'' = true ∧ Operator.ge.isMark = true ∧
      (∀ c ∈ "a==b".toList, isQuote c = false) ∧ ∀ c ∈ " > 1".toList, isQuote c = false) ∧
    Expression.parse "'a==b' >= ' > 1'" = .ok (.compare "a==b".toList .ge " > 1".toList) ∧
    Expression.parse "'a==b'>=' > 1'" ≠ .ok (.compare "a==b".toList .ge " > 1".toList) ∧
    Expression.parse "'a==b'>=' > 1'" ≠ .ok (.literal false) ∧
    (∀ l wanted r, Expression.parse "'a==b'>=' > 1'" = .ok (.compare l wanted r) →
      '\'' ∈ l ∧ beginsWithGap " > 1".toList = true ∧ wanted.token <:+: " > 1".toList) := by
  have hquote : isQuote '\'' = true := rfl
  have hmark : Operator.ge.isMark = true := rfl
  have hleft : ∀ c ∈ "a==b".toList, isQuote c = false := by simp [isQuote]
  have hright : ∀ c ∈ " > 1".toList, isQuote c = false := by simp [isQuote]
  obtain ⟨hspaced, hlost, hliteral, htaken⟩ :=
    parse_comparison_needs_blanks hquote hmark hleft hright
  refine ⟨⟨hquote, hmark, hleft, hright⟩, hspaced, hlost, fun h => ?_, htaken⟩
  rcases hliteral.1 h with hgap | hnone
  · exact absurd hgap (by decide +kernel)
  · exact hnone .gt ⟨[' '], [' ', '1'], by decide +kernel⟩

/-- **A comparison that is lost without its blanks**: `Expression.parse` makes of it a literal, a
bare word that is false. -/
theorem exists_adjacent_comparison_lost :
    Operator.eq.isMark = true ∧ "'a' == 'b'".toList = comparison '\'' ['a'] .eq ['b'] ∧
    "'a'=='b'".toList = adjacent '\'' ['a'] .eq ['b'] ∧
    Expression.parse "'a' == 'b'" = .ok (.compare ['a'] .eq ['b']) ∧
    Expression.parse "'a'=='b'" = .ok (.literal false) ∧
    Expression.parse "'a'=='b'" ≠ Expression.parse "'a' == 'b'" := by
  have hspaced : Expression.parse "'a' == 'b'" = .ok (.compare ['a'] .eq ['b']) := by rfl
  have hlost : Expression.parse "'a'=='b'" = .ok (.literal false) := by rfl
  refine ⟨rfl, by decide, by decide, hspaced, hlost, fun h => ?_⟩
  rw [hspaced, hlost] at h
  cases h

/-! ## One blank -/

section OneBlank

variable {quote : Char} {left right : List Char} {op : Operator}

/-- **A blank behind the operator alone changes nothing**: the left operand is not closed, and the
condition is what it is without blanks (`blankBehind` against `adjacent`). -/
theorem parse_blank_behind (hquote : isQuote quote = true) (hop : op.isMark = true)
    (hleft : ∀ c ∈ left, isQuote c = false) (hright : ∀ c ∈ right, isQuote c = false) :
    Expression.parse (String.ofList (blankBehind quote left op right)) ≠
      .ok (.compare left op right) ∧
    (Expression.parse (String.ofList (blankBehind quote left op right)) = .ok (.literal false) ↔
      beginsWithGap right = false ∨ ∀ wanted : Operator, ¬ wanted.token <:+: right) ∧
    (∀ l wanted r,
      Expression.parse (String.ofList (blankBehind quote left op right)) =
        .ok (.compare l wanted r) →
      quote ∈ l ∧ beginsWithGap right = true ∧ wanted.token <:+: right) := by
  have hleft' : quote ∉ left := quote_not_mem hquote hleft
  obtain ⟨-, habuts⟩ := Abuts.mark hquote hop
  rw [blankBehind_eq_joined]
  refine ⟨fun h => ?_, parse_joined_literal_iff hquote habuts hleft' hright,
    fun l wanted r h => parse_joined_compare hquote habuts hleft' hright h⟩
  exact hleft' (parse_joined_compare hquote habuts hleft' hright h).1

/-- The operator behind its blank is always found, so the condition is no bare word. -/
theorem hits_blankBefore_self (hquote : isQuote quote = true) (hop : op.isMark = true)
    (hleft : quote ∉ left) (hright : ∀ c ∈ right, isQuote c = false) :
    ∃ others, hits op (blankBefore quote left op right) =
        ((quoted quote left).length + 1) :: others ∧
      (others = [] ↔ ¬ op.token <:+: right) := by
  have hhits := hits_blankBefore hquote hop hleft hright op
  rw [(occurrences_afterBlank hop).1] at hhits
  refine ⟨(Chars.occurrences op.token right).map
    ((quoted quote left).length + op.token.length + 2 + ·), hhits, ?_⟩
  rw [List.map_eq_nil_iff]
  exact Chars.occurrencesFrom_eq_nil_iff op.token_ne_nil 0 right

/-- What comes before the operator is found exactly if the right text has it. -/
theorem hits_blankBefore_precedes (hquote : isQuote quote = true) (hop : op.isMark = true)
    (hleft : quote ∉ left) (hright : ∀ c ∈ right, isQuote c = false) {wanted : Operator}
    (hwanted : wanted.Precedes op) :
    hits wanted (blankBefore quote left op right) = [] ↔ ¬ wanted.token <:+: right := by
  rw [hits_blankBefore hquote hop hleft hright, (occurrences_afterBlank hop).2 wanted hwanted,
    List.map_nil, List.nil_append, List.map_eq_nil_iff]
  exact Chars.occurrencesFrom_eq_nil_iff wanted.token_ne_nil 0 right

/-- Cut at the operator behind its blank, the condition compares the two texts. -/
theorem compareAt_blankBefore (hquote : isQuote quote = true) :
    compareAt op (blankBefore quote left op right) ((quoted quote left).length + 1) =
      .ok (.compare left op right) := by
  have hblank : ∀ c ∈ [' '], Chars.isBlank c = true := List.forall_mem_singleton.2 (by decide)
  have htext : blankBefore quote left op right =
      (quoted quote left ++ [' ']) ++ op.token ++ quoted quote right := by
    simp [blankBefore]
  have hlen : (quoted quote left).length + 1 = (quoted quote left ++ [' ']).length := by simp
  have htrimmed := trimmed_quoted hquote left
  rw [htext, hlen, compareAt_append, htrimmed.trim_append_right hblank,
    (trimmed_quoted hquote right).trim_eq, unquote_quoted hquote, unquote_quoted hquote]
  rfl

/-- **A blank in front of the operator alone leaves the right text open** (`blankBefore`).  The
comparison of the two texts is read exactly if neither the operator nor one that comes before it
in the order of priority (`Operator.Precedes`) stands in the right text; and the condition is no
bare word in any case. -/
theorem parse_blank_before (hquote : isQuote quote = true) (hop : op.isMark = true)
    (hleft : ∀ c ∈ left, isQuote c = false) (hright : ∀ c ∈ right, isQuote c = false) :
    (Expression.parse (String.ofList (blankBefore quote left op right)) =
        .ok (.compare left op right) ↔
      ∀ wanted : Operator, wanted = op ∨ wanted.Precedes op → ¬ wanted.token <:+: right) ∧
    (∀ value, Expression.parse (String.ofList (blankBefore quote left op right)) ≠
      .ok (.literal value)) := by
  have hleft' : quote ∉ left := quote_not_mem hquote hleft
  have hparse : Expression.parse (String.ofList (blankBefore quote left op right)) =
      parseWith (blankBefore quote left op right) Operator.priority := by
    have htrimmed := (trimmed_quoted hquote left).append (trimmed_quoted hquote right)
      (' ' :: op.token)
    exact parse_ofList htrimmed
  obtain ⟨others, hself, hothers⟩ := hits_blankBefore_self hquote hop hleft' hright
  have hbefore := fun {wanted : Operator} (h : wanted.Precedes op) =>
    hits_blankBefore_precedes hquote hop hleft' hright h
  rw [hparse]
  refine ⟨⟨?_, ?_⟩, ?_⟩
  · intro h
    obtain ⟨earlier, later, place, hpriority, hnone, hplace, -⟩ := exists_hit_of_parseWith h
    rintro wanted (rfl | hwanted)
    · rw [hself] at hplace
      exact hothers.1 (List.cons.inj hplace).2
    · exact (hbefore hwanted).1 (hnone wanted (hwanted.mem_earlier hpriority))
  · intro h
    obtain ⟨earlier, later, hpriority, hearlier⟩ := op.exists_precedes
    rw [hothers.2 (h op (.inl rfl))] at hself
    rw [hpriority, parseWith_append fun e he =>
      (hbefore (hearlier e he).1).2 (h e (.inr (hearlier e he).1)), parseWith, hself]
    exact compareAt_blankBefore hquote
  · intro value h
    have hnone := (parseWith_eq_literal_iff.1 h).1 op (mem_priority op)
    rw [hself] at hnone
    cases hnone

end OneBlank

/-- With a blank in front only, a second operator in the right text is one too many. -/
example : Expression.parse "'a' =='b == c'" =
    .error (.repeated .eq 2 "'a' =='b == c'".toList) := by
  rfl

end Condition

end RestCase
