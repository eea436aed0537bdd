/-
# RestCase.Proofs.Condition.Quoting — quoted operands of a condition

The variables of a condition are put in before its operator is looked for, so that a value could
bring an operator of its own, or hide the one that is there.  Quotes keep it from doing so: between
two quotes that it does not have itself, a value is masked from end to end
(`quotedMask_comparison`), no operator reaches from it across a quote (`hits_comparison`), and after
the comparison is cut the quotes come off again (`compareAt_append`).  What is compared are the two
values as they are, whatever they hold (`holds_quoted_placeholders`).

Boundary: a value with the quote in it that stands around it is not protected.
`RestCase.Proofs.Condition.Adjacency` and `RestCase.Proofs.Condition.Unquoted` say what becomes of
operands that are quoted otherwise, or not at all.
-/
import RestCase.Condition
import RestCase.Proofs.Template.Filling

namespace RestCase

/-! ## What the operators say -/

namespace Operator

/-- The relation of two texts that an operator stands for.  The four orderings are those of the
two numbers (`Binary64.ofChars?`), and do not hold where one of the texts is no number. -/
def Relates (left right : List Char) : Operator → Prop
  | eq => left = right
  | ne => left ≠ right
  | contains => right <:+: left
  | startsWith => right <+: left
  | endsWith => right <:+ left
  | ge => ∃ l r, Binary64.ofChars? left = some l ∧ Binary64.ofChars? right = some r ∧ r.le l = true
  | le => ∃ l r, Binary64.ofChars? left = some l ∧ Binary64.ofChars? right = some r ∧ l.le r = true
  | gt => ∃ l r, Binary64.ofChars? left = some l ∧ Binary64.ofChars? right = some r ∧ r.lt l = true
  | lt => ∃ l r, Binary64.ofChars? left = some l ∧ Binary64.ofChars? right = some r ∧ l.lt r = true

theorem compareNumbers_iff {holds : Binary64 → Binary64 → Bool} {left right : List Char} :
    compareNumbers holds left right = true ↔
      ∃ l r, Binary64.ofChars? left = some l ∧ Binary64.ofChars? right = some r ∧
        holds l r = true := by
  unfold compareNumbers
  cases Binary64.ofChars? left with
  | none => simp
  | some l =>
    cases Binary64.ofChars? right with
    | none => simp
    | some r => simp

theorem apply_iff (op : Operator) (left right : List Char) :
    op.apply left right = true ↔ op.Relates left right := by
  cases op with
  | eq => exact beq_iff_eq
  | ne => exact bne_iff_ne
  | contains => exact Chars.contains_iff
  | startsWith => exact List.isPrefixOf_iff_prefix
  | endsWith => exact List.isSuffixOf_iff_suffix
  | ge | le | gt | lt => exact compareNumbers_iff

/-- The blanks that stand between the token of an operator and the operands: a word has them in its
token already. -/
def margin : Operator → List Char
  | contains | startsWith | endsWith => []
  | eq | ne | ge | le | gt | lt => [' ']

/-- An operator with one blank on either side. -/
def spaced (op : Operator) : List Char := ' ' :: (op.name.toList ++ [' '])

theorem spaced_eq (op : Operator) : op.spaced = op.margin ++ (op.token ++ op.margin) := by
  cases op <;> decide

theorem token_ne_nil (op : Operator) : op.token ≠ [] := by
  cases op <;> decide

theorem isBlank_of_mem_margin {op : Operator} {c : Char} (h : c ∈ op.margin) :
    Chars.isBlank c = true := by
  have hspace : c = ' ' := by
    cases op <;> simp_all [margin]
  rw [hspace]
  decide

/-- Between blanks an operator is found once, behind its margin. -/
theorem occurrences_spaced_self (op : Operator) :
    Chars.occurrences op.token op.spaced = [op.margin.length] := by
  cases op <;> decide

/-- An operator comes before another in the order of `priority`. -/
def Precedes (first second : Operator) : Prop := priority.idxOf first < priority.idxOf second

instance (first second : Operator) : Decidable (first.Precedes second) :=
  inferInstanceAs (Decidable (_ < _))

/-- What stands before an operator in the list of priorities precedes it, and is not found in it
between its blanks. -/
theorem exists_precedes (op : Operator) :
    ∃ earlier later, priority = earlier ++ op :: later ∧
      ∀ e ∈ earlier, e.Precedes op ∧ Chars.occurrences e.token op.spaced = [] := by
  refine ⟨priority.takeWhile (· ≠ op), (priority.dropWhile (· ≠ op)).tail, ?_, ?_⟩
  · cases op <;> decide
  · cases op <;> decide

end Operator

namespace Condition

/-! ## Quoted texts -/

/-- A text between two quotes. -/
def quoted (quote : Char) (text : List Char) : List Char := quote :: (text ++ [quote])

/-- A comparison of two quoted texts. -/
def comparison (quote : Char) (left : List Char) (op : Operator) (right : List Char) : List Char :=
  quoted quote left ++ (op.spaced ++ quoted quote right)

section Quotes

variable {quote : Char} {text rest : List Char}

theorem eq_of_isQuote (hquote : isQuote quote = true) : quote = '\'' ∨ quote = '"' := by
  simpa [isQuote] using hquote

theorem isBlank_quote (hquote : isQuote quote = true) : Chars.isBlank quote = false := by
  rcases eq_of_isQuote hquote with rfl | rfl <;> decide

theorem isAsciiGap_quote (hquote : isQuote quote = true) : Chars.isAsciiGap quote = false := by
  rcases eq_of_isQuote hquote with rfl | rfl <;> decide

theorem quote_not_mem_token (hquote : isQuote quote = true) (op : Operator) :
    quote ∉ op.token := by
  rcases eq_of_isQuote hquote with rfl | rfl <;> cases op <;> decide

theorem unquote_quoted (hquote : isQuote quote = true) (text : List Char) :
    unquote (quoted quote text) = text := by
  have hlast : (text ++ [quote]).getLast? == some quote := by simp
  have hdrop : (text ++ [quote]).dropLast = text := by simp
  unfold quoted
  cases text with
  | nil => simp [unquote, hquote]
  | cons d r =>
    rw [List.cons_append] at hlast hdrop ⊢
    rw [unquote, hquote, hlast, Bool.and_self, if_pos rfl, hdrop]

theorem getLast?_quoted (quote : Char) (text : List Char) :
    (quoted quote text).getLast? = some quote := by
  rw [quoted, ← List.cons_append, List.getLast?_append]
  rfl

/-- Nothing of a quoted text is trimmed. -/
theorem trimmed_quoted (hquote : isQuote quote = true) (text : List Char) :
    Chars.Trimmed (quoted quote text) :=
  ⟨⟨quote, rfl, isBlank_quote hquote⟩,
    ⟨quote, getLast?_quoted quote text, isBlank_quote hquote⟩⟩

/-! ## The mask -/

/-- The search for the closing quote passes over a text without it. -/
theorem closingAt?_append_of_not_mem (htext : quote ∉ text) :
    closingAt? quote (text ++ rest) = (closingAt? quote rest).map (· + text.length) := by
  induction text with
  | nil => exact Option.map_id'.symm
  | cons c r ih =>
    obtain ⟨hne, hr⟩ := List.ne_and_not_mem_of_not_mem_cons htext
    rw [List.cons_append, closingAt?, if_neg (fun h => hne h.1.symm), ih hr, Option.map_map]
    rfl

/-- The first quote after a text without it closes the text (`closingAt?`), before a gap or the
end. -/
theorem closingAt?_append (htext : quote ∉ text)
    (hrest : (rest.head?.map Chars.isAsciiGap).getD true = true) :
    closingAt? quote (text ++ quote :: rest) = some text.length := by
  have hhere : closingAt? quote (quote :: rest) = some 0 := if_pos ⟨rfl, hrest⟩
  rw [closingAt?_append_of_not_mem htext, hhere, Option.map_some, Nat.zero_add]

theorem maskFrom_length (text rest : List Char) :
    maskFrom text.length false (text ++ rest) =
      List.replicate text.length true ++ maskFrom 0 false rest := by
  induction text with
  | nil => rfl
  | cons c r ih => simp [maskFrom, ih, List.replicate_succ]

/-- What an opening quote opens is masked up to the quote that closes it. -/
theorem maskFrom_closed (hquote : isQuote quote = true) {n : Nat}
    (hclose : closingAt? quote (text ++ rest) = some n) (hn : text.length = n + 1) :
    maskFrom 0 true (quote :: (text ++ rest)) =
      List.replicate (n + 2) true ++ maskFrom 0 false rest := by
  rw [maskFrom, hquote, Bool.and_self, if_pos rfl, hclose]
  show true :: maskFrom (n + 1) false (text ++ rest) = _
  rw [← hn, maskFrom_length, hn]
  rfl

/-- **A quoted text is masked** from its first quote to its last, where `closingAt?` finds the
last one. -/
theorem maskFrom_quoted (hquote : isQuote quote = true) (htext : quote ∉ text)
    (hrest : (rest.head?.map Chars.isAsciiGap).getD true = true) :
    maskFrom 0 true (quoted quote text ++ rest) =
      List.replicate (quoted quote text).length true ++ maskFrom 0 false rest := by
  have hclose : closingAt? quote (text ++ [quote] ++ rest) = some text.length := by
    rw [List.append_assoc]
    exact closingAt?_append htext hrest
  have hlen : (quoted quote text).length = text.length + 2 := by simp [quoted]
  rw [hlen]
  exact maskFrom_closed hquote hclose (by simp)

/-- A quoted text at the end is masked. -/
theorem maskFrom_quoted_end (hquote : isQuote quote = true) (htext : quote ∉ text) :
    maskFrom 0 true (quoted quote text) = List.replicate (quoted quote text).length true := by
  have h : maskFrom 0 true (quoted quote text ++ []) =
      List.replicate (quoted quote text).length true ++ maskFrom 0 false [] :=
    maskFrom_quoted hquote htext rfl
  rw [List.append_nil] at h
  exact h.trans (List.append_nil _)

/-- An operator between blanks is not masked, and a quote may open after it. -/
theorem maskFrom_spaced (op : Operator) (rest : List Char) :
    maskFrom 0 false (op.spaced ++ rest) =
      List.replicate op.spaced.length false ++ maskFrom 0 true rest := by
  cases op <;> rfl

end Quotes

/-! ## Comparisons of quoted texts -/

section Comparison

variable {quote : Char} {left right : List Char} {op : Operator}

/-- **The mask of a quoted `comparison`** covers the two operands and nothing else. -/
theorem quotedMask_comparison (hquote : isQuote quote = true) (hleft : quote ∉ left)
    (hright : quote ∉ right) :
    quotedMask (comparison quote left op right) =
      List.replicate (quoted quote left).length true ++
        (List.replicate op.spaced.length false ++
          List.replicate (quoted quote right).length true) := by
  unfold quotedMask comparison
  rw [maskFrom_quoted hquote hleft rfl, maskFrom_spaced, maskFrom_quoted_end hquote hright]

/-- A place is masked exactly if it lies in one of the operands. -/
theorem masked_comparison_iff (hquote : isQuote quote = true) (hleft : quote ∉ left)
    (hright : quote ∉ right) (i : Nat) :
    (quotedMask (comparison quote left op right))[i]?.getD false = true ↔
      i < (quoted quote left).length ∨
        (quoted quote left).length + op.spaced.length ≤ i ∧
          i < (comparison quote left op right).length := by
  rw [quotedMask_comparison hquote hleft hright]
  simp only [comparison, List.length_append, List.getElem?_append, List.length_replicate,
    List.getElem?_replicate]
  grind

/-- What is found in two quoted texts with something between them is found in one of the texts or
between them: no operator reaches across a quote. -/
theorem occurrences_quoted_append (hquote : isQuote quote = true) (left between right : List Char)
    (wanted : Operator) :
    Chars.occurrences wanted.token (quoted quote left ++ (between ++ quoted quote right)) =
      Chars.occurrencesFrom wanted.token 0 1 left ++
        (Chars.occurrencesFrom wanted.token 0 (quoted quote left).length between ++
          Chars.occurrencesFrom wanted.token 0
            ((quoted quote left).length + between.length + 1) right) := by
  have htoken := quote_not_mem_token hquote wanted
  have hne := wanted.token_ne_nil
  have hcut : quoted quote left ++ (between ++ quoted quote right) =
      [] ++ quote :: (left ++ quote :: (between ++ quote :: (right ++ quote :: []))) := by
    simp [quoted]
  have hlen : 0 + ([] : List Char).length + 1 + left.length + 1 = (quoted quote left).length := by
    simp [quoted]
    omega
  rw [hcut, Chars.occurrences]
  iterate 4 rw [Chars.occurrencesFrom_append_cons hne htoken _ _ (Nat.zero_le _)]
  rw [hlen]
  simp [Chars.occurrencesFrom]

/-- What is found of an operator, if all that is not masked stands together. -/
theorem hits_eq_of_parts {wanted : Operator} {text : List Char} {before found after : List Nat}
    (hparts : Chars.occurrences wanted.token text = before ++ (found ++ after))
    (hbefore : ∀ i ∈ before, (quotedMask text)[i]?.getD false = true)
    (hfound : ∀ i ∈ found, ¬ (quotedMask text)[i]?.getD false = true)
    (hafter : ∀ i ∈ after, (quotedMask text)[i]?.getD false = true) :
    hits wanted text = found := by
  have hnone : ∀ places : List Nat,
      (∀ i ∈ places, (quotedMask text)[i]?.getD false = true) →
      places.filter (fun i => !((quotedMask text)[i]?.getD false)) = [] := by
    intro places hplaces
    rw [List.filter_eq_nil_iff]
    intro i hi
    rw [hplaces i hi]
    exact Bool.false_ne_true
  have hall : found.filter (fun i => !((quotedMask text)[i]?.getD false)) = found := by
    rw [List.filter_eq_self]
    intro i hi
    rw [Bool.not_eq_true', ← Bool.not_eq_true]
    exact hfound i hi
  unfold hits
  simp only
  rw [hparts, List.filter_append, List.filter_append, hnone before hbefore, hall,
    hnone after hafter, List.nil_append, List.append_nil]

/-- **Only what stands between the operands counts as an operator**, as `hits` leaves out what is
masked. -/
theorem hits_comparison (hquote : isQuote quote = true) (hleft : quote ∉ left)
    (hright : quote ∉ right) (wanted : Operator) :
    hits wanted (comparison quote left op right) =
      (Chars.occurrences wanted.token op.spaced).map ((quoted quote left).length + ·) := by
  have hmask : ∀ i, (quotedMask (comparison quote left op right))[i]?.getD false = true ↔
      i < (quoted quote left).length ∨
        (quoted quote left).length + op.spaced.length ≤ i ∧
          i < (comparison quote left op right).length :=
    masked_comparison_iff hquote hleft hright
  have hlenLeft : (quoted quote left).length = left.length + 2 := by simp [quoted]
  have hlen : (comparison quote left op right).length =
      (quoted quote left).length + op.spaced.length + right.length + 2 := by
    simp [comparison, quoted]
    omega
  have hparts : Chars.occurrences wanted.token (comparison quote left op right) = _ :=
    occurrences_quoted_append hquote left op.spaced right wanted
  rw [hits_eq_of_parts hparts, Chars.occurrencesFrom_eq_map]
  · rfl
  · -- a place inside the left operand is masked
    intro i hi
    obtain ⟨hle, hlt⟩ := Chars.mem_occurrencesFrom hi
    exact (hmask i).2 (.inl (by omega))
  · -- a place between the operands is not
    intro i hi
    obtain ⟨hle, hlt⟩ := Chars.mem_occurrencesFrom hi
    rw [hmask i]
    omega
  · -- a place inside the right operand is
    intro i hi
    obtain ⟨hle, hlt⟩ := Chars.mem_occurrencesFrom hi
    exact (hmask i).2 (.inr ⟨by omega, by omega⟩)

/-! ## Parsing -/

theorem parseWith_append {text : List Char} {earlier : List Operator}
    (h : ∀ e ∈ earlier, hits e text = []) (rest : List Operator) :
    parseWith text (earlier ++ rest) = parseWith text rest := by
  induction earlier with
  | nil => rfl
  | cons e earlier ih =>
    rw [List.cons_append, parseWith, h e List.mem_cons_self]
    exact ih fun x hx => h x (List.mem_cons_of_mem e hx)

theorem mem_priority (op : Operator) : op ∈ Operator.priority := by
  cases op <;> decide

/-- A text without operators, and no other, is a literal. -/
theorem parseWith_eq_literal_iff {text : List Char} {ops : List Operator} {value : Bool} :
    parseWith text ops = .ok (.literal value) ↔
      (∀ op ∈ ops, hits op text = []) ∧ Chars.sameIgnoringCase text "true".toList = value := by
  induction ops with
  | nil => simp [parseWith]
  | cons op ops ih =>
    rw [parseWith]
    split
    next hnone => rw [ih, List.forall_mem_cons, and_iff_right hnone]
    next place hplace =>
      refine iff_of_false (fun h => ?_) (fun h => ?_)
      · unfold compareAt at h
        simp only at h
        split at h <;> cases h
      · rw [h.1 op List.mem_cons_self] at hplace
        cases hplace
    next hnone _ =>
      refine iff_of_false (fun h => by cases h) (fun h => ?_)
      exact hnone (h.1 op List.mem_cons_self)

/-- Cut at an operator, a text is compared side with side. -/
theorem compareAt_append (left : List Char) (op : Operator) (right : List Char) :
    compareAt op (left ++ op.token ++ right) left.length =
      if (Chars.trim left).isEmpty || (Chars.trim right).isEmpty then
        .error (.missingOperand op (left ++ op.token ++ right))
      else .ok (.compare (unquote (Chars.trim left)) op (unquote (Chars.trim right))) := by
  have htake : (left ++ op.token ++ right).take left.length = left := by
    rw [List.append_assoc, List.take_left]
  have hdrop : (left ++ op.token ++ right).drop (left.length + op.token.length) = right := by
    rw [← List.length_append, List.drop_left]
  rw [compareAt, htake, hdrop]

/-- Cut at an operator between blanks, a text gives back what stands on either side. -/
theorem compareAt_spaced (hleft : Chars.Trimmed left) (hright : Chars.Trimmed right)
    (op : Operator) :
    compareAt op (left ++ (op.spaced ++ right)) (left.length + op.margin.length) =
      .ok (.compare (unquote left) op (unquote right)) := by
  have htext : left ++ (op.spaced ++ right) =
      (left ++ op.margin) ++ op.token ++ (op.margin ++ right) := by
    simp [op.spaced_eq]
  have hmargin : ∀ c ∈ op.margin, Chars.isBlank c = true := fun _ hc =>
    Operator.isBlank_of_mem_margin hc
  rw [htext, ← List.length_append, compareAt_append, hleft.trim_append_right hmargin,
    hright.trim_append_left hmargin, List.isEmpty_eq_false_iff.2 hleft.ne_nil,
    List.isEmpty_eq_false_iff.2 hright.ne_nil]
  rfl

/-- A trimmed text is parsed as it is: `Expression.parse` is `parseWith` there. -/
theorem parse_ofList {text : List Char} (h : Chars.Trimmed text) :
    Expression.parse (String.ofList text) = parseWith text Operator.priority := by
  unfold Expression.parse
  rw [String.toList_ofList, h.trim_eq]

/-- **An operator between blanks** (`spaced`) **is what a text is compared by**, if nothing on
either side has a part in the search for it or for those that precede it. -/
theorem parse_spaced (hleft : Chars.Trimmed left) (hright : Chars.Trimmed right) (op : Operator)
    (hhits : ∀ wanted : Operator, wanted = op ∨ wanted.Precedes op →
      hits wanted (left ++ (op.spaced ++ right)) =
        (Chars.occurrences wanted.token op.spaced).map (left.length + ·)) :
    Expression.parse (String.ofList (left ++ (op.spaced ++ right))) =
      .ok (.compare (unquote left) op (unquote right)) := by
  obtain ⟨earlier, later, hpriority, hearlier⟩ := op.exists_precedes
  have hself : hits op (left ++ (op.spaced ++ right)) = [left.length + op.margin.length] := by
    rw [hhits op (.inl rfl), op.occurrences_spaced_self]
    rfl
  have hnone : ∀ e ∈ earlier, hits e (left ++ (op.spaced ++ right)) = [] := by
    intro e he
    obtain ⟨hprecedes, hmiss⟩ := hearlier e he
    rw [hhits e (.inr hprecedes), hmiss]
    rfl
  rw [parse_ofList (hleft.append hright op.spaced), hpriority, parseWith_append hnone, parseWith,
    hself]
  exact compareAt_spaced hleft hright op

/-- **A quoted comparison is parsed** as the comparison of the two texts: the text between the
quotes cannot be the operator (`hits_comparison`). -/
theorem parse_comparison (hquote : isQuote quote = true) (hleft : quote ∉ left)
    (hright : quote ∉ right) :
    Expression.parse (String.ofList (comparison quote left op right)) =
      .ok (.compare left op right) := by
  have hparse := parse_spaced (trimmed_quoted hquote left) (trimmed_quoted hquote right) op
    fun wanted _ => hits_comparison hquote hleft hright wanted
  rwa [unquote_quoted hquote, unquote_quoted hquote] at hparse

end Comparison

/-! ## Quoted placeholders -/

/-- The condition that compares the variables `a` and `b` between quotes. -/
def placeholders (quote : Char) (a : String) (op : Operator) (b : String) : String :=
  String.ofList
    (comparison quote (Template.placeholder a) op (Template.placeholder b))

/-- The placeholders between the quotes are replaced, each by its value as it is. -/
theorem interpolate_placeholders {ctx : Context} {quote : Char} {a b v w : String}
    (hquote : isQuote quote = true) (ha : '\x7d' ∉ a.toList) (hb : '\x7d' ∉ b.toList)
    (hv : ctx.getString? a = some v) (hw : ctx.getString? b = some w) (op : Operator) :
    Template.interpolate ctx (placeholders quote a op b) =
      String.ofList (comparison quote v.toList op w.toList) := by
  have hdollar : '$' ≠ quote := by
    rcases eq_of_isQuote hquote with rfl | rfl <;> decide
  have hbefore : '$' ∉ [quote] := by simpa using hdollar
  have hbetween : '$' ∉ quote :: (op.spaced ++ [quote]) := by
    have hspaced : '$' ∉ op.spaced := by
      cases op <;> decide
    simp [hdollar, hspaced]
  -- the two placeholders with what stands before, between and behind them
  have htext : comparison quote (Template.placeholder a) op (Template.placeholder b) =
      [quote] ++ (Template.variableMarks.opening ++ a.toList ++ Template.variableMarks.closing ++
        (quote :: (op.spaced ++ [quote]) ++ (Template.variableMarks.opening ++ b.toList ++
          Template.variableMarks.closing ++ [quote]))) := by
    simp [comparison, quoted, Template.placeholder]
  have hend : Template.fill Template.variableMarks (Template.valueIn ctx) [quote] =
      ⟨[quote], []⟩ :=
    Template.fill_of_no_opening (Chars.splitFirst?_eq_none _ hbefore)
  rw [Template.interpolate, Template.interpolation_eq, placeholders, String.toList_ofList, htext,
    Template.fill_placeholder hbefore ha (Template.valueIn_of_getString? hv),
    Template.fill_placeholder hbetween hb (Template.valueIn_of_getString? hw), hend]
  simp [comparison, quoted]

/-- **Quotes protect a condition from the values it compares.**  Between two quotes that do not
occur in the values, `holds?` makes sense of the condition, and it holds exactly when the values,
as they are, stand in the relation (`Relates`) of its operator. -/
theorem holds_quoted_placeholders {ctx : Context} {quote : Char} {a b v w : String}
    (hquote : isQuote quote = true) (ha : '\x7d' ∉ a.toList) (hb : '\x7d' ∉ b.toList)
    (hv : ctx.getString? a = some v) (hw : ctx.getString? b = some w)
    (hquotev : quote ∉ v.toList) (hquotew : quote ∉ w.toList) (op : Operator) :
    holds? ctx (placeholders quote a op b) = .ok (op.apply v.toList w.toList) ∧
      holds ctx (placeholders quote a op b) = op.apply v.toList w.toList ∧
      (op.apply v.toList w.toList = true ↔ op.Relates v.toList w.toList) := by
  have hblank : Text.isBlank (placeholders quote a op b) = false := by
    unfold Text.isBlank placeholders comparison quoted
    simp [isBlank_quote hquote]
  have hholds : holds? ctx (placeholders quote a op b) = .ok (op.apply v.toList w.toList) := by
    unfold holds?
    rw [hblank, if_neg Bool.false_ne_true, interpolate_placeholders hquote ha hb hv hw,
      parse_comparison hquote hquotev hquotew]
    rfl
  refine ⟨hholds, ?_, op.apply_iff _ _⟩
  unfold holds
  rw [hholds]

namespace Braced

/-- A value with operators, quotes, blanks and something like a placeholder in it. -/
def value : String := "it's == 'x' contains $\x7bb \x7b>= "

/-- Two variables, one of which looks like an operator. -/
def context : Context :=
  (Context.empty.set "a" (.string value) none).set "b" (.string " contains ") none

end Braced

/-- A value that holds an operator and the other quote contains the value of another variable. -/
theorem holds_quoted_placeholders_braced :
    (isQuote '"' = true ∧ '\x7d' ∉ "a".toList ∧ '\x7d' ∉ "b".toList ∧
      Braced.context.getString? "a" = some Braced.value ∧
      Braced.context.getString? "b" = some " contains " ∧
      '"' ∉ Braced.value.toList ∧ '"' ∉ " contains ".toList) ∧
    Operator.contains.apply Braced.value.toList " contains ".toList = true ∧
    holds? Braced.context (placeholders '"' "a" .contains "b") =
      .ok (Operator.contains.apply Braced.value.toList " contains ".toList) ∧
    holds Braced.context (placeholders '"' "a" .contains "b") =
      Operator.contains.apply Braced.value.toList " contains ".toList ∧
    (Operator.contains.apply Braced.value.toList " contains ".toList = true ↔
      Operator.contains.Relates Braced.value.toList " contains ".toList) := by
  have hquote : isQuote '"' = true := by decide
  have ha : '\x7d' ∉ "a".toList := by decide
  have hb : '\x7d' ∉ "b".toList := by decide
  have hv : Braced.context.getString? "a" = some Braced.value := by decide +kernel
  have hw : Braced.context.getString? "b" = some " contains " := by decide +kernel
  have hquotev : '"' ∉ Braced.value.toList := by decide +kernel
  have hquotew : '"' ∉ " contains ".toList := by decide +kernel
  exact ⟨⟨hquote, ha, hb, hv, hw, hquotev, hquotew⟩, by decide +kernel,
    holds_quoted_placeholders hquote ha hb hv hw hquotev hquotew .contains⟩

end Condition

end RestCase
