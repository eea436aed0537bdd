/-
# RestCase.Proofs.Condition.Unquoted — a word beside a quoted operand

A value without gaps and without marks needs no quotes of its own: beside a quoted text it is one
word (`IsWord`), and no operator is found in it (`occurrences_beside`).  One character can still
undo the quotes of the other side.  An apostrophe at the beginning of the word may open a quoted
span, and the span goes on over the operator and over the double quote behind it, to the first
apostrophe before a gap in the quoted text, or else nowhere (`closingAt?_beside`).

So the text is sheltered by its quotes if the word does not begin with an apostrophe, or if there is
neither an apostrophe before a gap nor an operator for the search in the text.  A word beside a
sheltered text is compared with it (`parse_beside`); where the apostrophe is closed in the text, the
comparison is lost (`parse_beside_of_closesIn`).  `holds_word_beside_quoted` says the first of a
condition with a variable on one side and a quoted text on the other.
-/
import RestCase.Proofs.Condition.Adjacency
import RestCase.Proofs.Condition.Meaning

namespace RestCase

namespace Operator

/-- The characters that the marks are made of. -/
def markChars : List Char := ['=', '!', '<', '>']

/-- A token begins with a blank or with a character of a mark. -/
theorem exists_token_eq_cons (op : Operator) :
    ∃ c r, op.token = c :: r ∧ (c = ' ' ∨ c ∈ markChars) := by
  cases op <;> exact ⟨_, _, rfl, by decide⟩

end Operator

namespace Condition

/-! ## Words -/

/-- A value that can stand without quotes: no blank, no double quote and no character of a mark
(`Operator.markChars`) is in it, and it does not stand between apostrophes itself. -/
structure IsWord (value : List Char) : Prop where
  ne_nil : value ≠ []
  not_blank : ∀ c ∈ value, Chars.isBlank c = false
  not_quote : '"' ∉ value
  not_mark : ∀ c ∈ value, c ∉ Operator.markChars
  not_enclosed : ∀ inner, value ≠ quoted '\'' inner

/-- A word and a quoted text with an operator between blanks. -/
def beside (value : List Char) (op : Operator) (text : List Char) : List Char :=
  value ++ (op.spaced ++ quoted '"' text)

/-- Everything up to the quote that opens the text. -/
def front (value : List Char) (op : Operator) : List Char := value ++ (op.spaced ++ ['"'])

/-- A quote stands in the text before a gap. -/
def ClosesIn (quote : Char) (text : List Char) : Prop :=
  ∃ gap, Chars.isAsciiGap gap = true ∧ [quote, gap] <:+: text

/-- The quotes around the text keep it from having a part in the search for the operator, also if
the word begins with an apostrophe, which then `ClosesIn` nothing. -/
def Sheltered (value : List Char) (op : Operator) (text : List Char) : Prop :=
  value.head? = some '\'' →
    ¬ ClosesIn '\'' text ∧ ∀ e : Operator, e = op ∨ e.Precedes op → ¬ e.token <:+: text

theorem isBlank_of_isAsciiGap {c : Char} (h : Chars.isAsciiGap c = true) :
    Chars.isBlank c = true := by
  simp only [Chars.isAsciiGap, Bool.or_eq_true, beq_iff_eq] at h
  rcases h with (((rfl | rfl) | rfl) | rfl) | rfl <;> decide

section Words

variable {value text : List Char} {op : Operator}

theorem IsWord.not_gap (h : IsWord value) : ∀ c ∈ value, Chars.isAsciiGap c = false := by
  intro c hc
  rw [Bool.eq_false_iff]
  intro hgap
  have hblank := h.not_blank c hc
  rw [isBlank_of_isAsciiGap hgap] at hblank
  cases hblank

/-- A word has not the first character of any operator. -/
theorem IsWord.exists_token_eq_cons (h : IsWord value) (wanted : Operator) :
    ∃ c r, wanted.token = c :: r ∧ c ∉ value := by
  obtain ⟨c, r, htoken, hc⟩ := wanted.exists_token_eq_cons
  refine ⟨c, r, htoken, fun hmem => ?_⟩
  rcases hc with rfl | hmark
  · exact absurd (h.not_blank ' ' hmem) (by decide)
  · exact h.not_mark c hmem hmark

/-- Without quotes around it a word is an operand as it is. -/
theorem IsWord.unquote_eq (h : IsWord value) : unquote value = value := by
  refine unquote_of_plain fun quote inner hquote heq => ?_
  rcases eq_of_isQuote hquote with rfl | rfl
  · exact h.not_enclosed inner heq
  · exact h.not_quote (heq ▸ List.mem_cons_self)

/-- A word does not end with the apostrophe that it begins with, unless it is nothing else. -/
theorem IsWord.getLast?_ne {tail : List Char} (h : IsWord ('\'' :: tail)) :
    tail.getLast? ≠ some '\'' := by
  intro hlast
  obtain ⟨inner, rfl⟩ := List.getLast?_eq_some_iff.1 hlast
  exact h.not_enclosed inner rfl

/-- Nothing of a word is trimmed. -/
theorem IsWord.trimmed (h : IsWord value) : Chars.Trimmed value :=
  ⟨⟨_, List.head?_eq_some_head h.ne_nil, h.not_blank _ (List.head_mem h.ne_nil)⟩,
    ⟨_, List.getLast?_eq_some_getLast h.ne_nil, h.not_blank _ (List.getLast_mem h.ne_nil)⟩⟩

theorem beside_eq (value : List Char) (op : Operator) (text : List Char) :
    beside value op text = front value op ++ (text ++ ['"']) := by
  simp [beside, front, quoted]

theorem length_front (value : List Char) (op : Operator) :
    (front value op).length = value.length + op.spaced.length + 1 := by
  rw [front, List.length_append, List.length_append, List.length_singleton, Nat.add_assoc]

/-! ## The operators -/

/-- **What is found beside a word** is found around the operator or in the text: the word itself has
no operator in it, and none reaches across a quote. -/
theorem occurrences_beside (h : IsWord value) (wanted : Operator) :
    Chars.occurrences wanted.token (beside value op text) =
      (Chars.occurrences wanted.token op.spaced).map (value.length + ·) ++
        (Chars.occurrences wanted.token text).map ((front value op).length + ·) := by
  obtain ⟨c, r, htoken, hc⟩ := h.exists_token_eq_cons wanted
  have hpass : Chars.occurrences wanted.token (beside value op text) =
      Chars.occurrencesFrom wanted.token 0 value.length
        (op.spaced ++ '"' :: (text ++ '"' :: [])) := by
    unfold Chars.occurrences beside quoted
    rw [htoken, Chars.occurrencesFrom_append_of_not_mem r hc, Nat.zero_add]
  -- two quotes cut the text behind the word into three parts, the last of them empty
  have hend : ∀ place, Chars.occurrencesFrom wanted.token 0 place [] = [] := fun _ => rfl
  have hne := wanted.token_ne_nil
  have hquote : '"' ∉ wanted.token := quote_not_mem_token rfl wanted
  rw [hpass, Chars.occurrencesFrom_append_cons hne hquote _ _ (Nat.zero_le _),
    Chars.occurrencesFrom_append_cons hne hquote _ _ (Nat.zero_le _), hend, List.append_nil,
    ← length_front, Chars.occurrencesFrom_eq_map 0 value.length,
    Chars.occurrencesFrom_eq_map 0 (front value op).length]
  rfl

/-! ## The mask -/

/-- A word is not masked where no quote may open. -/
theorem maskFrom_word (hword : ∀ c ∈ value, Chars.isAsciiGap c = false) (rest : List Char) :
    maskFrom 0 false (value ++ rest) =
      List.replicate value.length false ++ maskFrom 0 false rest := by
  induction value with
  | nil => rfl
  | cons c r ih =>
    obtain ⟨hc, hr⟩ := List.forall_mem_cons.1 hword
    rw [List.cons_append, maskFrom, Bool.and_false, if_neg Bool.false_ne_true, hc, ih hr]
    rfl

/-- The mask `beside` a word that opens no span covers the quoted text and nothing else. -/
theorem quotedMask_beside (h : IsWord value) (hhead : value.head? ≠ some '\'')
    (htext : '"' ∉ text) :
    quotedMask (beside value op text) =
      List.replicate value.length false ++ (List.replicate op.spaced.length false ++
        List.replicate (quoted '"' text).length true) := by
  have hword := h.not_gap
  have hnone := h.not_quote
  obtain ⟨c, r, rfl⟩ := List.exists_cons_of_ne_nil h.ne_nil
  have hc : isQuote c = false := by
    have happ : c ≠ '\'' := fun hc => hhead (congrArg some hc)
    have hdouble : c ≠ '"' := fun hc => hnone (hc ▸ List.mem_cons_self)
    simp [isQuote, happ, hdouble]
  obtain ⟨hgap, hr⟩ := List.forall_mem_cons.1 hword
  unfold quotedMask beside
  rw [List.cons_append, maskFrom, hc, Bool.false_and, if_neg Bool.false_ne_true, hgap,
    maskFrom_word hr, maskFrom_spaced, maskFrom_quoted_end rfl htext]
  rfl

/-- The search for the closing quote passes over a text without gaps that does not end with it. -/
theorem closingAt?_append_word {quote : Char} {word rest : List Char}
    (hword : ∀ c ∈ word, Chars.isAsciiGap c = false) (hlast : word.getLast? ≠ some quote) :
    closingAt? quote (word ++ rest) = (closingAt? quote rest).map (· + word.length) := by
  induction word with
  | nil => exact Option.map_id'.symm
  | cons c r ih =>
    obtain ⟨-, hr⟩ := List.forall_mem_cons.1 hword
    -- no quote in the word stands before a gap, not even the last one
    have hopen : ¬ (c = quote ∧
        ((r ++ rest).head?.map Chars.isAsciiGap).getD true = true) := by
      rintro ⟨rfl, hgap⟩
      cases r with
      | nil => exact hlast rfl
      | cons d t => exact Bool.false_ne_true ((hr d List.mem_cons_self).symm.trans hgap)
    have hlast' : r.getLast? ≠ some quote := by
      cases r with
      | nil => simp
      | cons d t => rwa [List.getLast?_cons_cons] at hlast
    rw [List.cons_append, closingAt?, if_neg hopen, ih hr hlast', Option.map_map]
    rfl

/-- Where an apostrophe at the beginning of the word is closed: in the text or nowhere. -/
theorem closingAt?_beside {tail : List Char} (h : IsWord ('\'' :: tail)) (op : Operator)
    (text : List Char) :
    closingAt? '\'' (tail ++ (op.spaced ++ quoted '"' text)) =
      (closingAt? '\'' (text ++ ['"'])).map (· + (front tail op).length) := by
  have hspaced : '\'' ∉ op.spaced ++ ['"'] := by
    cases op <;> decide
  have hcut : op.spaced ++ quoted '"' text = (op.spaced ++ ['"']) ++ (text ++ ['"']) := by
    simp [quoted]
  rw [closingAt?_append_word (List.forall_mem_cons.1 h.not_gap).2 h.getLast?_ne, hcut,
    closingAt?_append_of_not_mem hspaced, Option.map_map]
  congr 1
  funext n
  show n + (op.spaced ++ ['"']).length + tail.length = n + (front tail op).length
  simp only [front, List.length_append]
  omega

theorem closesIn_cons {quote c : Char} {r : List Char} :
    ClosesIn quote (c :: r) ↔ c = quote ∧ beginsWithGap r = true ∨ ClosesIn quote r := by
  have hhere : (∃ gap, Chars.isAsciiGap gap = true ∧ [quote, gap] <+: c :: r) ↔
      c = quote ∧ beginsWithGap r = true := by
    constructor
    · rintro ⟨gap, hgap, t, ht⟩
      obtain ⟨rfl, rfl⟩ := List.cons.inj ht
      exact ⟨rfl, hgap⟩
    · rintro ⟨rfl, hgap⟩
      cases r with
      | nil => cases hgap
      | cons gap t => exact ⟨gap, hgap, t, rfl⟩
  unfold ClosesIn
  simp only [List.infix_cons_iff, and_or_left, exists_or, hhere]

/-- A quote finds no end in a text exactly if it stands nowhere before a gap there. -/
theorem closingAt?_eq_none_iff {quote d : Char} (hne : d ≠ quote)
    (hgap : Chars.isAsciiGap d = false) :
    closingAt? quote (text ++ [d]) = none ↔ ¬ ClosesIn quote text := by
  induction text with
  | nil =>
    have hnil : ¬ ClosesIn quote [] := by
      rintro ⟨gap, -, hinfix⟩
      exact List.cons_ne_nil _ _ (List.infix_nil.1 hinfix)
    have hnone : closingAt? quote [d] = none := by
      rw [closingAt?, if_neg fun h => hne h.1]
      rfl
    exact iff_of_true hnone hnil
  | cons c r ih =>
    -- the character at the end is no gap, so that only the text itself can have one
    have hnext : ((r ++ [d]).head?.map Chars.isAsciiGap).getD true = beginsWithGap r := by
      cases r with
      | nil => exact hgap
      | cons e t => rfl
    rw [List.cons_append, closingAt?, hnext, closesIn_cons]
    split
    · next hhere => simp [hhere]
    · next hhere => simp [hhere, ih]

/-- An apostrophe that is closed nowhere leaves everything without a mask. -/
theorem quotedMask_beside_of_unclosed (h : IsWord value) (hhead : value.head? = some '\'')
    (hclose : ¬ ClosesIn '\'' text) :
    quotedMask (beside value op text) = List.replicate (beside value op text).length false := by
  obtain ⟨tail, rfl⟩ := List.head?_eq_some_iff.1 hhead
  have hnone : closingAt? '\'' (tail ++ (op.spaced ++ quoted '"' text)) = none := by
    rw [closingAt?_beside h, (closingAt?_eq_none_iff (by decide) rfl).2 hclose]
    rfl
  have hopen : (isQuote '\'' && true) = true := rfl
  unfold quotedMask beside
  rw [List.cons_append, maskFrom, if_pos hopen, hnone]
  rfl

/-- An apostrophe that is closed in the text masks everything in front of the text. -/
theorem masked_beside_of_closesIn (h : IsWord value) (hhead : value.head? = some '\'')
    (hclose : ClosesIn '\'' text) {i : Nat} (hi : i < (front value op).length) :
    (quotedMask (beside value op text))[i]?.getD false = true := by
  obtain ⟨tail, rfl⟩ := List.head?_eq_some_iff.1 hhead
  obtain ⟨n, hn⟩ : ∃ n, closingAt? '\'' (text ++ ['"']) = some n := by
    rw [← Option.ne_none_iff_exists', ne_eq, closingAt?_eq_none_iff (by decide) rfl, not_not]
    exact hclose
  have hclosing : closingAt? '\'' (tail ++ (op.spaced ++ quoted '"' text)) =
      some (n + (front tail op).length) := by
    rw [closingAt?_beside h, hn]
    rfl
  obtain ⟨inside, after, hcut, hinside⟩ := exists_append_of_closingAt? hclosing
  -- the closing quote stands within the text, so that its front is masked as a whole
  have hlt : i < n + (front tail op).length + 2 := by
    have hfront : (front ('\'' :: tail) op).length = (front tail op).length + 1 := rfl
    omega
  unfold quotedMask beside
  rw [List.cons_append, hcut, maskFrom_closed rfl (hcut ▸ hclosing) hinside,
    List.getElem?_append_left (by rwa [List.length_replicate]), List.getElem?_replicate,
    if_pos hlt]
  rfl

/-! ## What the search is left with -/

/-- Beside a word that opens no span, only what stands before the text counts as an operator
(`hits`). -/
theorem hits_beside (h : IsWord value) (hhead : value.head? ≠ some '\'') (htext : '"' ∉ text)
    (wanted : Operator) :
    hits wanted (beside value op text) =
      (Chars.occurrences wanted.token op.spaced).map (value.length + ·) := by
  have hmask : ∀ i, (quotedMask (beside value op text))[i]?.getD false = true ↔
      value.length + op.spaced.length ≤ i ∧ i < (beside value op text).length := by
    intro i
    rw [quotedMask_beside h hhead htext]
    simp only [beside, List.length_append, List.getElem?_append, List.length_replicate,
      List.getElem?_replicate]
    grind
  have hlength : (beside value op text).length = (front value op).length + text.length + 1 := by
    rw [beside_eq, List.length_append, List.length_append, List.length_singleton, Nat.add_assoc]
  have hfront := length_front value op
  -- what is found before the text is open, and what is found in it is masked
  apply hits_eq_of_parts (occurrences_beside h wanted) (List.forall_mem_nil _)
  · intro i hi
    obtain ⟨k, hk, rfl⟩ := List.mem_map.1 hi
    have hlt := (Chars.mem_occurrencesFrom hk).2
    rw [hmask]
    omega
  · intro i hi
    obtain ⟨k, hk, rfl⟩ := List.mem_map.1 hi
    have hlt := (Chars.mem_occurrencesFrom hk).2
    rw [hmask]
    omega

/-- Beside an apostrophe that is closed nowhere, everything that is found counts. -/
theorem hits_beside_of_unclosed (h : IsWord value) (hhead : value.head? = some '\'')
    (hclose : ¬ ClosesIn '\'' text) (wanted : Operator) :
    hits wanted (beside value op text) =
      Chars.occurrences wanted.token (beside value op text) := by
  apply hits_eq_of_parts (List.append_nil _).symm (List.forall_mem_nil _) _ (List.forall_mem_nil _)
  intro i _
  rw [quotedMask_beside_of_unclosed h hhead hclose, List.getElem?_replicate]
  split <;> exact Bool.false_ne_true

/-- Beside a `Sheltered` text, the operator and those that precede it are found where they stand
before the text, and nowhere else. -/
theorem Sheltered.hits_eq (hs : Sheltered value op text) (h : IsWord value) (htext : '"' ∉ text)
    {wanted : Operator} (hwanted : wanted = op ∨ wanted.Precedes op) :
    hits wanted (beside value op text) =
      (Chars.occurrences wanted.token op.spaced).map (value.length + ·) := by
  by_cases hhead : value.head? = some '\''
  · obtain ⟨hclose, hmiss⟩ := hs hhead
    have hnone : Chars.occurrences wanted.token text = [] :=
      (Chars.occurrencesFrom_eq_nil_iff wanted.token_ne_nil 0 text).2 (hmiss wanted hwanted)
    rw [hits_beside_of_unclosed h hhead hclose, occurrences_beside h, hnone, List.map_nil,
      List.append_nil]
  · exact hits_beside h hhead htext wanted

/-- Beside an apostrophe that is closed in the text, an operator counts only within the text. -/
theorem exists_of_mem_hits (h : IsWord value) (hhead : value.head? = some '\'')
    (hclose : ClosesIn '\'' text) {wanted : Operator} {place : Nat}
    (hplace : place ∈ hits wanted (beside value op text)) :
    ∃ i ∈ Chars.occurrences wanted.token text, place = (front value op).length + i := by
  obtain ⟨hfound, hopen⟩ := List.mem_filter.1 hplace
  rw [occurrences_beside h, List.mem_append, List.mem_map, List.mem_map] at hfound
  rcases hfound with ⟨k, hk, rfl⟩ | ⟨i, hi, rfl⟩
  · have hlt := (Chars.mem_occurrencesFrom hk).2
    have hbefore : value.length + k < (front value op).length := by
      rw [length_front]
      omega
    rw [masked_beside_of_closesIn h hhead hclose hbefore] at hopen
    cases hopen
  · exact ⟨i, hi, rfl⟩

/-! ## Parsing -/

/-- A word beside a quoted text is parsed as they stand. -/
theorem parse_eq_parseWith (h : IsWord value) :
    Expression.parse (String.ofList (beside value op text)) =
      parseWith (beside value op text) Operator.priority :=
  parse_ofList (h.trimmed.append (trimmed_quoted rfl text) op.spaced)

/-- **A word beside a sheltered text is compared with it**, by `Sheltered.hits_eq` and
`parse_spaced`. -/
theorem parse_beside (hs : Sheltered value op text) (h : IsWord value) (htext : '"' ∉ text) :
    Expression.parse (String.ofList (beside value op text)) = .ok (.compare value op text) := by
  have hquote : isQuote '"' = true := rfl
  have hparse := parse_spaced h.trimmed (trimmed_quoted hquote text) op fun _ => hs.hits_eq h htext
  rwa [h.unquote_eq, unquote_quoted hquote] at hparse

/-- An operand loses no character to its quotes but the one that it begins with. -/
theorem mem_unquote_of_head?_ne {operand : List Char} {c : Char} (hmem : c ∈ operand)
    (hhead : operand.head? ≠ some c) : c ∈ unquote operand := by
  unfold unquote
  split
  · next first second rest =>
    split
    · next hends =>
      obtain ⟨inner, hinner⟩ :=
        List.getLast?_eq_some_iff.1 (beq_iff_eq.1 (Bool.and_eq_true_iff.1 hends).2)
      have hne : c ≠ first := fun heq => hhead (congrArg some heq.symm)
      rw [hinner, List.dropLast_concat]
      rw [hinner] at hmem
      simpa [hne] using hmem
    · exact hmem
  · exact hmem

/-- **Where the apostrophe is closed in the text** (`ClosesIn`)**, the comparison is lost**:
whatever else the condition is taken for has its operator from within the text, and on its left
side the double quote that was to open the text. -/
theorem parse_beside_of_closesIn (h : IsWord value) (hhead : value.head? = some '\'')
    (hclose : ClosesIn '\'' text) {l r : List Char} {wanted : Operator}
    (hparse : Expression.parse (String.ofList (beside value op text)) =
      .ok (.compare l wanted r)) :
    '"' ∈ l ∧ wanted.token <:+: text := by
  rw [parse_eq_parseWith h] at hparse
  obtain ⟨-, -, place, -, -, hfound, rfl⟩ := exists_hit_of_parseWith hparse
  have hplace : place ∈ hits wanted (beside value op text) := hfound ▸ List.mem_cons_self
  obtain ⟨i, hi, rfl⟩ := exists_of_mem_hits h hhead hclose hplace
  have hfront : (front value op).head? = some '\'' := by
    rw [front, List.head?_append, hhead]
    rfl
  have hlast : (front value op).getLast? = some '"' := by
    rw [front, ← List.append_assoc]
    exact List.getLast?_concat
  -- the left operand reaches from the apostrophe to the double quote and beyond
  constructor
  · obtain ⟨rest, htrim⟩ := Chars.exists_trim_append hfront rfl hlast rfl ((text ++ ['"']).take i)
    rw [beside_eq, List.take_length_add_append, htrim]
    apply mem_unquote_of_head?_ne
    · exact List.mem_append_left rest (List.mem_of_getLast? hlast)
    · rw [List.head?_append, hfront]
      exact fun hquote => absurd (Option.some.inj hquote) (by decide)
  · by_contra hmiss
    rw [Chars.occurrences,
      (Chars.occurrencesFrom_eq_nil_iff wanted.token_ne_nil 0 text).2 hmiss] at hi
    cases hi

end Words

/-! ## Variables -/

/-- The condition that compares the variable `a` with the text `w` between double quotes. -/
def placeholderBeside (a : String) (op : Operator) (w : String) : String :=
  String.ofList (beside (Template.placeholder a) op w.toList)

section Variables

variable {ctx : Context} {a v w : String}

/-- The variable is replaced by its value as it is, and nothing else is. -/
theorem interpolate_placeholderBeside (ha : '\x7d' ∉ a.toList) (hv : ctx.getString? a = some v)
    (hdollar : '$' ∉ w.toList) (op : Operator) :
    Template.interpolate ctx (placeholderBeside a op w) =
      String.ofList (beside v.toList op w.toList) := by
  have hrest : '$' ∉ op.spaced ++ quoted '"' w.toList := by
    have hspaced : '$' ∉ op.spaced := by
      cases op <;> decide
    simp [quoted, hspaced, hdollar]
  have htext : beside (Template.placeholder a) op w.toList =
      [] ++ (Template.variableMarks.opening ++ a.toList ++ Template.variableMarks.closing ++
        (op.spaced ++ quoted '"' w.toList)) := by
    simp [beside, Template.placeholder]
  -- behind the placeholder nothing opens another one
  have hend : Template.fill Template.variableMarks (Template.valueIn ctx)
      (op.spaced ++ quoted '"' w.toList) = ⟨op.spaced ++ quoted '"' w.toList, []⟩ :=
    Template.fill_of_no_opening (Chars.splitFirst?_eq_none _ hrest)
  rw [Template.interpolate, Template.interpolation_eq, placeholderBeside, String.toList_ofList,
    htext, Template.fill_placeholder List.not_mem_nil ha (Template.valueIn_of_getString? hv), hend]
  rfl

/-- A condition that is parsed holds exactly if its expression does. -/
theorem holds?_of_parse {expression : String} {e : Expression}
    (hblank : Text.isBlank expression = false)
    (hparse : Expression.parse (Template.interpolate ctx expression) = .ok e) :
    holds? ctx expression = .ok e.eval ∧ holds ctx expression = e.eval := by
  have hholds : holds? ctx expression = .ok e.eval := by
    unfold holds?
    rw [hblank, if_neg Bool.false_ne_true, hparse]
    rfl
  refine ⟨hholds, ?_⟩
  unfold holds
  rw [hholds]

/-- **A condition with a variable on one side and a quoted text on the other.**  The value of the
variable is a word (`IsWord`), and the text has no double quote and brings no variable.  If the
quotes shelter the text (`Sheltered`), which they do beside every word that does not begin with an
apostrophe, the condition compares the word with the text (`Relates`), whatever operators and
blanks the text has.  If the word begins with an apostrophe and one stands before a gap in the
text (`ClosesIn`), the operator is within the quoted span between the two: the comparison is lost,
and any other that the condition is taken for has its operator from within the text. -/
theorem holds_word_beside_quoted (ha : '\x7d' ∉ a.toList) (hv : ctx.getString? a = some v)
    (hword : IsWord v.toList) (hquote : '"' ∉ w.toList) (hdollar : '$' ∉ w.toList)
    (op : Operator) :
    (Sheltered v.toList op w.toList →
      Expression.parse (Template.interpolate ctx (placeholderBeside a op w)) =
        .ok (.compare v.toList op w.toList) ∧
      holds? ctx (placeholderBeside a op w) = .ok (op.apply v.toList w.toList) ∧
      holds ctx (placeholderBeside a op w) = op.apply v.toList w.toList ∧
      (op.apply v.toList w.toList = true ↔ op.Relates v.toList w.toList)) ∧
    (v.toList.head? = some '\'' → ClosesIn '\'' w.toList →
      Expression.parse (Template.interpolate ctx (placeholderBeside a op w)) ≠
        .ok (.compare v.toList op w.toList) ∧
      ∀ l wanted r,
        Expression.parse (Template.interpolate ctx (placeholderBeside a op w)) =
          .ok (.compare l wanted r) →
        '"' ∈ l ∧ wanted.token <:+: w.toList) := by
  have hblank : Text.isBlank (placeholderBeside a op w) = false := by
    unfold Text.isBlank placeholderBeside beside quoted
    simp [show Chars.isBlank '"' = false from rfl]
  have htext := interpolate_placeholderBeside ha hv hdollar op
  constructor
  · intro hs
    have hparse := parse_beside hs hword hquote
    rw [← htext] at hparse
    obtain ⟨htry, hholds⟩ := holds?_of_parse hblank hparse
    exact ⟨hparse, htry, hholds, op.apply_iff _ _⟩
  · intro hhead hclose
    rw [htext]
    refine ⟨fun hparse => ?_, fun l wanted r => parse_beside_of_closesIn hword hhead hclose⟩
    exact hword.not_quote (parse_beside_of_closesIn hword hhead hclose hparse).1

end Variables

namespace Apostrophe

/-- A variable whose value begins with an apostrophe. -/
def context : Context := Context.empty.set "word" (.string "'tis") none

theorem isWord_tis : IsWord "'tis".toList where
  ne_nil := by decide
  not_blank := by simp [Chars.isBlank]
  not_quote := by decide
  not_mark := by simp [Operator.markChars]
  not_enclosed := by
    intro inner h
    have hlast := congrArg List.getLast? h
    rw [getLast?_quoted] at hlast
    exact absurd hlast (by decide)

end Apostrophe

/-- Beside an apostrophe a text keeps an operator of its own to itself, and an apostrophe before a
gap in the text undoes its quotes. -/
theorem holds_word_beside_quoted_apostrophe :
    (Apostrophe.context.getString? "word" = some "'tis" ∧ IsWord "'tis".toList ∧
      Sheltered "'tis".toList .ne "it's > 1".toList ∧ ClosesIn '\'' "it' s".toList) ∧
    holds? Apostrophe.context (placeholderBeside "word" .ne "it's > 1") =
      .ok (Operator.ne.apply "'tis".toList "it's > 1".toList) ∧
    Expression.parse
        (Template.interpolate Apostrophe.context (placeholderBeside "word" .ne "it' s")) ≠
      .ok (.compare "'tis".toList .ne "it' s".toList) := by
  have ha : '\x7d' ∉ "word".toList := by decide
  have hv : Apostrophe.context.getString? "word" = some "'tis" := by decide +kernel
  have hword := Apostrophe.isWord_tis
  have hsheltered : Sheltered "'tis".toList .ne "it's > 1".toList := by
    intro _
    constructor
    · rw [← closingAt?_eq_none_iff (d := '"') (by decide) rfl]
      decide
    · intro e he
      rw [← Chars.contains_iff]
      revert he
      cases e <;> decide
  have hclose : ClosesIn '\'' "it' s".toList := ⟨' ', rfl, ['i', 't'], ['s'], rfl⟩
  obtain ⟨hfirst, -⟩ := holds_word_beside_quoted (w := "it's > 1") ha hv hword (by decide)
    (by decide) .ne
  obtain ⟨-, hsecond⟩ := holds_word_beside_quoted (w := "it' s") ha hv hword (by decide)
    (by decide) .ne
  exact ⟨⟨hv, hword, hsheltered, hclose⟩, (hfirst hsheltered).2.1, (hsecond rfl hclose).1⟩

/-- **Quotes do not protect a text beside every word**: two conditions that do not hold, although
the word and the quoted text are different. -/
theorem exists_quoted_texts_laid_open :
    (Apostrophe.context.getString? "word" = some "'tis" ∧ IsWord "'tis".toList) ∧
    ('"' ∉ "it' s".toList ∧ '$' ∉ "it' s".toList ∧
      placeholderBeside "word" .ne "it' s" = "$\x7bword\x7d != \"it' s\"" ∧
      Operator.ne.apply "'tis".toList "it' s".toList = true ∧
      holds? Apostrophe.context (placeholderBeside "word" .ne "it' s") = .ok false) ∧
    ('"' ∉ "a == b".toList ∧ '$' ∉ "a == b".toList ∧
      placeholderBeside "word" .ne "a == b" = "$\x7bword\x7d != \"a == b\"" ∧
      Operator.ne.apply "'tis".toList "a == b".toList = true ∧
      holds? Apostrophe.context (placeholderBeside "word" .ne "a == b") = .ok false) := by
  refine ⟨⟨by decide +kernel, Apostrophe.isWord_tis⟩, ?_, ?_⟩
  · exact ⟨by decide, by decide, by decide, by decide, by decide +kernel⟩
  · exact ⟨by decide, by decide, by decide, by decide, by decide +kernel⟩

end Condition

end RestCase
