/-
# RestCase.Proofs.Path.Traversal — definite paths as traversal

A `Move` goes from a value to one part of it: to a member of an object, whose name is written plain
or between quotes, or to an item of an array.  A chain of moves is followed by making them one after
the other (`traverse`), and stops with nothing at the first move that does not apply.

The written form of a move is read back as one step, whatever a quoted name holds (`readStep_text`):
of the ways to read a step, those that come before the right one fail at the first or second
character, and the right one stops where the move ends, since what follows opens another move
(`OpensMove`).  The scan that finds a path definite passes over the written form in the same way,
move by move (`isDefinite_fullText`).

`followChain_steps` makes moves of steps, and `denotes_traversal` says of the text of a chain, the
sign of the document in front of it or not, that it is the path of its traversal.
-/
import RestCase.Path.Selection
import RestCase.Proofs.Chars.Search
import RestCase.Proofs.Json.Scalars

namespace RestCase.Path

/-! ## Moves -/

/-- A character of a name that needs no quotes. -/
def isWordChar (c : Char) : Bool :=
  Chars.isLetter c || Chars.isDigit c || c == '_' || c == '-'

/-- A character of a name that quotes can stand around as it is. -/
def isInnerChar (c : Char) : Bool := c != '\'' && c != '"' && c != '\\'

/-- The two quotes. -/
inductive QuoteMark where
  | single
  | double
  deriving DecidableEq, Repr

/-- The character of a quote. -/
def QuoteMark.char : QuoteMark → Char
  | single => '\''
  | double => '"'

/-- A step from a value to one part of it, as it is written (`Move.text`). -/
inductive Move where
  /-- To a member, the name behind a dot. -/
  | dotted (name : String) (nonempty : name.toList ≠ [])
      (word : ∀ c ∈ name.toList, isWordChar c = true)
  /-- To a member, the name in brackets and quotes. -/
  | quoted (mark : QuoteMark) (name : String) (nonempty : name.toList ≠ [])
      (inner : ∀ c ∈ name.toList, isInnerChar c = true)
  /-- To an item, the index in brackets. -/
  | item (index : Nat) (fits : index ≤ maxSignedWord)

namespace Move

/-- The written form of a move. -/
def text : Move → List Char
  | dotted name _ _ => '.' :: name.toList
  | quoted mark name _ _ => '[' :: mark.char :: (name.toList ++ [mark.char, ']'])
  | item index _ => '[' :: (Chars.digits index ++ [']'])

/-- The part of a value that a move leads to. -/
def apply (v : Json) : Move → Option Json
  | dotted name _ _ => v.member? name
  | quoted _ name _ _ => v.member? name
  | item index _ => v.item? index

/-- The step of a path that a move is. -/
def step : Move → Step
  | dotted name _ _ => .member name
  | quoted _ name _ _ => .member name
  | item index _ => .item (Chars.digits index)

end Move

/-- Make one move after the other (`Move.apply`); nothing as soon as one does not apply. -/
def traverse (moves : List Move) (v : Json) : Option Json := moves.foldlM Move.apply v

/-- The written form of a chain of moves. -/
def movesText (moves : List Move) : List Char := moves.flatMap Move.text

/-- The sign of the document and a chain of moves behind it. -/
def fullText (moves : List Move) : List Char := '$' :: movesText moves

/-- A chain of moves without the sign of the document, and without a dot at its start. -/
def shortText (moves : List Move) : List Char :=
  match movesText moves with
  | '.' :: r => r
  | s => s

/-- The expression is a definite path (`Path.parse`), which leads where the moves lead
(`traverse`). -/
def Denotes [Pattern.Engine] (expression : String) (moves : List Move) : Prop :=
  ∃ path, parse expression = .ok path ∧ path.definite = true ∧
    ∀ document, path.evaluate document = .ok (traverse moves document)

@[simp] theorem movesText_nil : movesText [] = [] := rfl

@[simp] theorem movesText_cons (move : Move) (moves : List Move) :
    movesText (move :: moves) = move.text ++ movesText moves := rfl

/-! ## Where a move begins and ends -/

/-- The text is empty or the beginning of a move. -/
def OpensMove (s : List Char) : Prop := ∀ c ∈ s.head?, c = '.' ∨ c = '['

theorem opensMove_movesText (moves : List Move) : OpensMove (movesText moves) := by
  cases moves with
  | nil => exact nofun
  | cons move moves => cases move <;> simp [OpensMove, Move.text]

theorem skipGaps_of_opensMove {s : List Char} (h : OpensMove s) : skipGaps s = s := by
  cases s with
  | nil => rfl
  | cons c s => obtain rfl | rfl := h c rfl <;> rfl

theorem isNameChar_of_isWordChar {c : Char} (h : isWordChar c = true) : isNameChar c = true := by
  simp only [isWordChar] at h
  simp only [isNameChar, h, Bool.true_or]

theorem isWordChar_of_isDigit {c : Char} (h : Chars.isDigit c = true) : isWordChar c = true := by
  simp [isWordChar, h]

theorem ne_of_isWordChar {c d : Char} (h : isWordChar c = true) (hd : isWordChar d = false) :
    c ≠ d := by
  rintro rfl
  rw [h] at hd
  cases hd

theorem ne_of_isDigit {c d : Char} (h : Chars.isDigit c = true) (hd : Chars.isDigit d = false) :
    c ≠ d := by
  rintro rfl
  rw [h] at hd
  cases hd

/-- No gap is a character of a word. -/
theorem skipGaps_of_isWordChar {c : Char} (h : isWordChar c = true) (r : List Char) :
    skipGaps (c :: r) = c :: r := by
  have h₁ := ne_of_isWordChar (d := ' ') h (by decide)
  have h₂ := ne_of_isWordChar (d := '\t') h (by decide)
  have h₃ := ne_of_isWordChar (d := '\n') h (by decide)
  have h₄ := ne_of_isWordChar (d := '\r') h (by decide)
  unfold skipGaps
  split <;> simp_all

/-! ## Reading a plain name -/

section Reading

variable {name r : List Char}

theorem isNameChar_of_opensMove (h : OpensMove r) : ∀ c ∈ r.head?, isNameChar c = false := by
  intro c hc
  obtain rfl | rfl := h c hc <;> decide

/-- A word that a move follows does not begin the count of items. -/
theorem not_length_prefix (hname : ∀ c ∈ name, isWordChar c = true) (hr : OpensMove r) :
    ¬ "length()".toList <+: name ++ r := by
  have hparen : '(' ∉ name := fun h => nomatch hname '(' h
  intro h
  rcases List.prefix_or_prefix_of_prefix h (List.prefix_append name r) with hlength | ⟨t, ht⟩
  · exact hparen (hlength.subset (by decide))
  · -- the word is a part of the count, and the move behind it begins with another part
    rw [← ht, List.prefix_append_right_inj] at h
    cases t with
    | nil =>
      rw [List.append_nil] at ht
      exact hparen (ht ▸ by decide)
    | cons c t =>
      obtain ⟨r', rfl⟩ := h
      have hmem : c ∈ "length()".toList := ht ▸ by simp
      obtain rfl | rfl := hr c rfl <;> exact absurd hmem (by decide)

theorem readName?_word (hne : name ≠ []) (hname : ∀ c ∈ name, isWordChar c = true)
    (hr : OpensMove r) : readName? (name ++ r) = some (String.ofList name, r) := by
  have hchars : ∀ c ∈ name, isNameChar c = true := fun c hc =>
    isNameChar_of_isWordChar (hname c hc)
  have hstop := isNameChar_of_opensMove hr
  have htake : (name ++ r).takeWhile isNameChar = name := Chars.takeWhile_run hchars hstop
  have hdrop : (name ++ r).dropWhile isNameChar = r := Chars.dropWhile_run hchars hstop
  have hcount : "length()".toList.isPrefixOf (name ++ r) = false := by
    rw [Bool.eq_false_iff]
    exact fun h => not_length_prefix hname hr (List.isPrefixOf_iff_prefix.1 h)
  unfold readName?
  rw [hcount, htake, hdrop]
  cases name with
  | nil => exact absurd rfl hne
  | cons c name => rfl

/-! ## Reading a quoted name -/

theorem afterInner_inner (hname : ∀ c ∈ name, isInnerChar c = true) (mark : QuoteMark) :
    afterInner (name ++ mark.char :: r) = mark.char :: r := by
  induction name with
  | nil => cases mark <;> simp [afterInner, QuoteMark.char]
  | cons c name ih =>
    have hc := hname c List.mem_cons_self
    simp only [isInnerChar, bne_iff_ne, ne_eq, Bool.and_eq_true] at hc
    obtain ⟨⟨hsingle, hdouble⟩, hescape⟩ := hc
    have hstep : afterInner (c :: (name ++ mark.char :: r)) =
        afterInner (name ++ mark.char :: r) := by
      rw [afterInner] <;> simp_all
    rw [List.cons_append, hstep]
    exact ih fun d hd => hname d (List.mem_cons_of_mem c hd)

theorem readUpTo_append (s rest : List Char) : readUpTo (s ++ rest) rest = s := by
  simp [readUpTo]

theorem readQuoted?_inner (hname : ∀ c ∈ name, isInnerChar c = true) (mark : QuoteMark) :
    readQuoted? (mark.char :: (name ++ mark.char :: r)) = some (String.ofList name, r) := by
  have hmark : mark.char = '\'' ∨ mark.char = '"' := by cases mark <;> simp [QuoteMark.char]
  simp [readQuoted?, hmark, afterInner_inner hname, readUpTo_append]

/-! ## Reading an index -/

/-- An index is a zero alone, or begins with another digit. -/
theorem digits_shape (n : Nat) :
    Chars.digits n = ['0'] ∨
      ∃ c d, Chars.digits n = c :: d ∧ c ≠ '0' ∧ Chars.isDigit c = true ∧
        ∀ x ∈ d, Chars.isDigit x = true := by
  by_cases hn : n = 0
  · subst hn
    rw [Chars.digits]
    exact Or.inl rfl
  · have hdigits := Chars.isDigit_of_mem_digits n
    have hhead := Chars.head?_digits_ne_zero hn
    obtain ⟨c, d, hcd⟩ := List.exists_cons_of_ne_nil (Chars.digits_ne_nil n)
    rw [hcd] at hdigits hhead
    refine Or.inr ⟨c, d, hcd, ?_, hdigits c List.mem_cons_self, ?_⟩
    · rintro rfl
      exact hhead rfl
    · exact fun x hx => hdigits x (List.mem_cons_of_mem c hx)

theorem afterSpacedDigits_digits {d : List Char} (hd : ∀ c ∈ d, Chars.isDigit c = true)
    {fuel : Nat} (hfuel : d.length ≤ fuel) :
    afterSpacedDigits fuel (d ++ ']' :: r) = ']' :: r := by
  induction d generalizing fuel with
  | nil =>
    cases fuel with
    | zero => rfl
    | succ fuel => rfl
  | cons c d ih =>
    obtain ⟨fuel, rfl⟩ : ∃ k, fuel = k + 1 := ⟨fuel - 1, by simp at hfuel; omega⟩
    have hc := hd c List.mem_cons_self
    rw [List.cons_append, afterSpacedDigits, skipGaps_of_isWordChar (isWordChar_of_isDigit hc)]
    simp only [hc, if_true]
    exact ih (fun x hx => hd x (List.mem_cons_of_mem c hx)) (Nat.le_of_succ_le_succ hfuel)

theorem readNatural?_digits (n : Nat) :
    readNatural? (Chars.digits n ++ ']' :: r) = some (Chars.digits n, ']' :: r) := by
  obtain hzero | ⟨c, d, hcd, hne, hc, hd⟩ := digits_shape n
  · rw [hzero]
    rfl
  · have hskip : skipGaps (d ++ ']' :: r) = d ++ ']' :: r := by
      cases d with
      | nil => rfl
      | cons x d => exact skipGaps_of_isWordChar (isWordChar_of_isDigit (hd x List.mem_cons_self)) _
    have hrest : afterSpacedDigits (d.length + (r.length + 1)) (d ++ ']' :: r) = ']' :: r :=
      afterSpacedDigits_digits hd (Nat.le_add_right _ _)
    have hread : readUpTo (c :: (d ++ ']' :: r)) (']' :: r) = c :: d :=
      readUpTo_append (c :: d) (']' :: r)
    rw [hcd, List.cons_append]
    simp [readNatural?, hc, hskip, hrest, hread]

/-- No digit is left of a number that a bracket closes. -/
theorem readNumber?_digits (n : Nat) :
    ∃ t, readNumber? (Chars.digits n ++ ']' :: r) = some (t, ']' :: r) := by
  obtain hzero | ⟨c, d, hcd, hne, hc, hd⟩ := digits_shape n
  · exact ⟨_, by rw [hzero]; rfl⟩
  · have hminus : c ≠ '-' := ne_of_isDigit hc (by decide)
    have hrest : afterDigits (d ++ ']' :: r) = ']' :: r := by
      rw [afterDigits, List.dropWhile_append_of_pos hd]
      rfl
    have hend : afterExponent (afterFraction (']' :: r)) = ']' :: r := rfl
    rw [hcd, List.cons_append]
    simp [readNumber?, hminus, hc, hrest, hend]

/-- An item with a bracket behind it is the only one. -/
theorem readSeveral?_of_bracket {α : Type} {item? : List Char → Option (α × List Char)}
    {s : List Char} (h : ∀ x ∈ item? s, x.2 = ']' :: r) : readSeveral? item? s = none := by
  unfold readSeveral?
  cases hs : item? s with
  | none => rfl
  | some x =>
    obtain ⟨x, t⟩ := x
    obtain rfl : t = ']' :: r := h (x, t) hs
    rfl

/-- **An index between brackets is read as an item**, since no comma and no colon follows it. -/
theorem readSelector?_digits (n : Nat) :
    readSelector? (Chars.digits n ++ ']' :: r) = some (.item (Chars.digits n), ']' :: r) := by
  have hnatural := readNatural?_digits (r := r) n
  obtain ⟨c, d, hcd⟩ := List.exists_cons_of_ne_nil (Chars.digits_ne_nil n)
  have hc : Chars.isDigit c = true := Chars.isDigit_of_mem_digits n c (by simp [hcd])
  have hnames : readSeveral? readQuoted? (Chars.digits n ++ ']' :: r) = none := by
    have hsingle : c ≠ '\'' := ne_of_isDigit hc (by decide)
    have hdouble : c ≠ '"' := ne_of_isDigit hc (by decide)
    simp [readSeveral?, readQuoted?, hcd, hsingle, hdouble]
  have hnumbers : readSeveral? readNumber? (Chars.digits n ++ ']' :: r) = none := by
    obtain ⟨t, ht⟩ := readNumber?_digits (r := r) n
    refine readSeveral?_of_bracket (r := r) ?_
    rw [ht]
    rintro _ ⟨⟩
    rfl
  have hslice : readSlice? (Chars.digits n ++ ']' :: r) = none := by
    have hminus : c ≠ '-' := ne_of_isDigit hc (by decide)
    have hinteger : readInteger? (Chars.digits n ++ ']' :: r) =
        some (Chars.digits n, ']' :: r) := by
      rw [← hnatural, hcd]
      simp [readInteger?, hminus]
    unfold readSlice?
    rw [hinteger]
    rfl
  simp [readSelector?, hnames, hnumbers, hslice, hnatural]

/-! ## Reading one move -/

/-- A word stands where nothing else does. -/
theorem pass?_cons_ne {c d : Char} (h : c ≠ d) (s : List Char) :
    pass? (String.ofList [d]) (c :: s) = none := by
  simp [pass?, Chars.afterPrefix?, List.isPrefixOf, Ne.symm h]

theorem readPlainStep?_dotted (hne : name ≠ []) (hname : ∀ c ∈ name, isWordChar c = true) :
    readPlainStep? ('.' :: (name ++ r)) = none := by
  obtain ⟨c, name, rfl⟩ := List.exists_cons_of_ne_nil hne
  have hc := hname c List.mem_cons_self
  have hdot : pass? "." ('.' :: c :: (name ++ r)) = some (c :: (name ++ r)) :=
    congrArg some (skipGaps_of_isWordChar hc _)
  have hother : ∀ d, isWordChar d = false →
      pass? (String.ofList [d]) (c :: (name ++ r)) = none :=
    fun d hd => pass?_cons_ne (ne_of_isWordChar hc hd) _
  have hdots : pass? "." (c :: (name ++ r)) = none := hother '.' (by decide)
  have hbracket : pass? "[" (c :: (name ++ r)) = none := hother '[' (by decide)
  have hstar : pass? "*" (c :: (name ++ r)) = none := hother '*' (by decide)
  have hroot : pass? "$" ('.' :: c :: (name ++ r)) = none := pass?_cons_ne (by decide) _
  simp [readPlainStep?, passOptional, hroot, hdot, hdots, hbracket, hstar]

theorem readMember?_dotted (hne : name ≠ []) (hname : ∀ c ∈ name, isWordChar c = true)
    (hr : OpensMove r) :
    readMember? ('.' :: (name ++ r)) = some (.member (String.ofList name), r) := by
  have hbracket : readBracketName? (name ++ r) = none := by
    obtain ⟨c, name, rfl⟩ := List.exists_cons_of_ne_nil hne
    have hc : c ≠ '[' := ne_of_isWordChar (hname c List.mem_cons_self) (by decide)
    simp [readBracketName?, hc]
  simp [readMember?, hbracket, readName?_word hne hname hr]

/-- Behind a bracket neither a gap nor a star: no step without brackets. -/
theorem readPlainStep?_bracket {c : Char} (hgap : skipGaps (c :: r) = c :: r) (hstar : c ≠ '*') :
    readPlainStep? ('[' :: c :: r) = none := by
  have hbracket : pass? "[" ('[' :: c :: r) = some (c :: r) := congrArg some hgap
  have hnone : pass? "*" (c :: r) = none := pass?_cons_ne hstar r
  have hroot : pass? "$" ('[' :: c :: r) = none := pass?_cons_ne (by decide) _
  have hdot : pass? "." ('[' :: c :: r) = none := pass?_cons_ne (by decide) _
  simp [readPlainStep?, passOptional, hroot, hdot, hbracket, hnone]

theorem readMember?_quoted (hname : ∀ c ∈ name, isInnerChar c = true) (mark : QuoteMark) :
    readMember? ('[' :: mark.char :: (name ++ mark.char :: ']' :: r)) =
      some (.member (String.ofList name), r) := by
  simp [readMember?, readBracketName?, readQuoted?_inner hname]

theorem readBracket_digits (fuel n : Nat) (hr : OpensMove r) :
    readBracket (fuel + 1) ('[' :: (Chars.digits n ++ ']' :: r)) =
      some (.item (Chars.digits n), r) := by
  have hgap : skipGaps (Chars.digits n ++ ']' :: r) = Chars.digits n ++ ']' :: r := by
    obtain ⟨c, d, hcd⟩ := List.exists_cons_of_ne_nil (Chars.digits_ne_nil n)
    have hc : Chars.isDigit c = true := Chars.isDigit_of_mem_digits n c (by simp [hcd])
    rw [hcd]
    exact skipGaps_of_isWordChar (isWordChar_of_isDigit hc) _
  have hopen : pass? "[" ('[' :: (Chars.digits n ++ ']' :: r)) =
      some (Chars.digits n ++ ']' :: r) := congrArg some hgap
  have hdot : pass? "." ('[' :: (Chars.digits n ++ ']' :: r)) = none :=
    pass?_cons_ne (by decide) _
  have hclose : pass? "]" (skipGaps (']' :: r)) = some r :=
    congrArg some (skipGaps_of_opensMove hr)
  simp [readBracket, passOptional, hdot, hopen, readSelector?_digits, hclose]

end Reading

/-- **The written form of a move is read as its step** (`readStep`, `Move.step`), and what follows
it is left. -/
theorem readStep_text (fuel : Nat) (move : Move) {r : List Char} (hr : OpensMove r) :
    readStep (fuel + 2) (move.text ++ r) = some (move.step, r) := by
  cases move with
  | dotted name hne hname =>
    have hhere : pass? "@" ('.' :: (name.toList ++ r)) = none := pass?_cons_ne (by decide) _
    simp [Move.text, Move.step, readStep, readPlainStep?_dotted hne hname, hhere,
      readMember?_dotted hne hname hr]
  | quoted mark name hne hname =>
    have hplain : readPlainStep? ('[' :: mark.char :: (name.toList ++ mark.char :: ']' :: r)) =
        none := by
      cases mark <;> exact readPlainStep?_bracket rfl (by decide)
    have hhere : pass? "@" ('[' :: mark.char :: (name.toList ++ mark.char :: ']' :: r)) = none :=
      pass?_cons_ne (by decide) _
    simp [Move.text, Move.step, readStep, hplain, hhere, readMember?_quoted hname]
  | item n hfits =>
    obtain ⟨c, d, hcd⟩ := List.exists_cons_of_ne_nil (Chars.digits_ne_nil n)
    have hc : Chars.isDigit c = true := Chars.isDigit_of_mem_digits n c (by simp [hcd])
    have hplain : readPlainStep? ('[' :: (Chars.digits n ++ ']' :: r)) = none := by
      rw [hcd]
      exact readPlainStep?_bracket (skipGaps_of_isWordChar (isWordChar_of_isDigit hc) _)
        (ne_of_isDigit hc (by decide))
    have hhere : pass? "@" ('[' :: (Chars.digits n ++ ']' :: r)) = none :=
      pass?_cons_ne (by decide) _
    have hmember : readMember? ('[' :: (Chars.digits n ++ ']' :: r)) = none := by
      have hsingle : c ≠ '\'' := ne_of_isDigit hc (by decide)
      have hdouble : c ≠ '"' := ne_of_isDigit hc (by decide)
      simp [readMember?, readBracketName?, readQuoted?, hcd, hsingle, hdouble]
    simp [Move.text, Move.step, readStep, hplain, hhere, hmember, readBracket_digits fuel n hr]

/-! ## Reading a chain of moves -/

theorem readStep_nil (fuel : Nat) : readStep fuel [] = none := by
  cases fuel with
  | zero => rfl
  | succ fuel => cases fuel <;> rfl

theorem readChain_nil (fuel : Nat) : readChain fuel [] = none := by
  cases fuel with
  | zero => rfl
  | succ fuel => rw [readChain, readStep_nil]

/-- A chain ends with its text. -/
theorem readChain_last {fuel : Nat} {s : List Char} {step : Step}
    (h : readStep fuel s = some (step, [])) : readChain (fuel + 1) s = some ([step], []) := by
  rw [readChain, h]
  simp [skipGaps, readChain_nil]

/-- A chain goes on with the next move. -/
theorem readChain_more {fuel : Nat} {s r : List Char} {step : Step} {more : List Step}
    (h : readStep fuel s = some (step, r)) (hr : OpensMove r)
    (hmore : readChain fuel r = some (more, [])) :
    readChain (fuel + 1) s = some (step :: more, []) := by
  rw [readChain, h]
  simp [skipGaps_of_opensMove hr, hmore]

/-- A chain of moves is read move by move. -/
theorem readChain_movesText (move : Move) (moves : List Move) (fuel : Nat) :
    readChain (fuel + moves.length + 3) (movesText (move :: moves)) =
      some ((move :: moves).map Move.step, []) := by
  induction moves generalizing move with
  | nil =>
    have hstep := readStep_text fuel move (opensMove_movesText [])
    rw [movesText_cons]
    exact readChain_last hstep
  | cons next moves ih =>
    have hr := opensMove_movesText (next :: moves)
    have hstep := readStep_text (fuel + moves.length + 1) move hr
    rw [movesText_cons]
    exact readChain_more hstep hr (ih next)

/-- A chain of moves has as many characters as moves, at least. -/
theorem length_le_movesText (moves : List Move) : moves.length ≤ (movesText moves).length := by
  induction moves with
  | nil => exact Nat.le_refl 0
  | cons move moves ih =>
    have hmove : 1 ≤ move.text.length := by cases move <;> simp [Move.text]
    rw [movesText_cons, List.length_append, List.length_cons]
    omega

/-- The sign of the document is read as a step of its own. -/
theorem readStep_fullText (fuel : Nat) (moves : List Move) :
    readStep (fuel + 1) (fullText moves) = some (.root, movesText moves) := by
  have hpass : pass? "$" ('$' :: movesText moves) = some (movesText moves) :=
    congrArg some (skipGaps_of_opensMove (opensMove_movesText moves))
  simp [fullText, readStep, readPlainStep?, hpass]

/-- **The written form of a chain is read** by `chainOf?` as the sign of the document and the
steps of the moves. -/
theorem chainOf?_fullText (moves : List Move) :
    chainOf? (fullText moves) = some (.root :: moves.map Move.step) := by
  have hread : readChain (10 * (fullText moves).length + 10) (fullText moves) =
      some (.root :: moves.map Move.step, []) := by
    cases moves with
    | nil => exact readChain_last (readStep_fullText 18 [])
    | cons move moves =>
      have hlength : moves.length + 3 ≤ 10 * (fullText (move :: moves)).length + 9 := by
        have hle := length_le_movesText (move :: moves)
        rw [fullText, List.length_cons]
        rw [List.length_cons] at hle
        omega
      obtain ⟨fuel, hfuel⟩ := Nat.exists_eq_add_of_le' hlength
      have hrest := readChain_movesText move moves fuel
      rw [Nat.add_assoc, ← hfuel] at hrest
      exact readChain_more (readStep_fullText _ _) (opensMove_movesText _) hrest
  have hstart : skipGaps (fullText moves) = fullText moves := rfl
  unfold chainOf?
  rw [hstart, hread]
  rfl

/-! ## The scan for marks of several places -/

/-- What stands between quotes is passed over. -/
theorem definiteFrom_inner {name : List Char} (hname : ∀ c ∈ name, isInnerChar c = true)
    (mark : QuoteMark) (depth : Nat) (dot : Bool) (r : List Char) :
    definiteFrom (some mark.char) depth dot (name ++ mark.char :: r) =
      definiteFrom none depth false r := by
  induction name generalizing dot with
  | nil => cases mark <;> simp [definiteFrom, QuoteMark.char]
  | cons c name ih =>
    have hc := hname c List.mem_cons_self
    simp only [isInnerChar, bne_iff_ne, ne_eq, Bool.and_eq_true] at hc
    have hmark : c ≠ mark.char := by
      cases mark
      · exact hc.1.1
      · exact hc.1.2
    rw [List.cons_append, definiteFrom]
    simp only [hmark, if_false]
    exact ih (fun d hd => hname d (List.mem_cons_of_mem c hd)) _

/-- **A move shows no mark of several places**; the scan is behind it as it was before it. -/
theorem definiteFrom_text (move : Move) (r : List Char) :
    definiteFrom none 0 false (move.text ++ r) = definiteFrom none 0 false r := by
  cases move with
  | dotted name hne hname =>
    have hplain : ∀ c ∈ name.toList, isNameChar c = true := fun c hc =>
      isNameChar_of_isWordChar (hname c hc)
    have hsome : name.toList.isEmpty = false := List.isEmpty_eq_false_iff.2 hne
    have hword := definiteFrom_of_plain hplain 0 true r
    rw [hsome, Bool.and_false] at hword
    simpa [Move.text, definiteFrom] using hword
  | quoted mark name hne hname =>
    have hinner := definiteFrom_inner hname mark 1 false (']' :: r)
    cases mark <;> simpa [Move.text, definiteFrom, QuoteMark.char] using hinner
  | item n hfits =>
    have hplain : ∀ c ∈ Chars.digits n, isNameChar c = true := fun c hc =>
      isNameChar_of_isWordChar (isWordChar_of_isDigit (Chars.isDigit_of_mem_digits n c hc))
    have hword := definiteFrom_of_plain hplain 1 false (']' :: r)
    simpa [Move.text, definiteFrom] using hword

/-- **The written form of a chain is definite**: `isDefinite` passes over each move. -/
theorem isDefinite_fullText (moves : List Move) : isDefinite (fullText moves) = true := by
  have hmoves : definiteFrom none 0 false (movesText moves) = true := by
    induction moves with
    | nil => rfl
    | cons move moves ih => rw [movesText_cons, definiteFrom_text, ih]
  exact hmoves

/-! ## Following the steps of moves -/

/-- An entry for what a chain of moves has reached. -/
def Found.ofOption : Option Json → Found
  | some v => .part v
  | none => .nothing

/-- A step to one part of a value, if there is that part, keeps a list at one entry. -/
theorem onParts_ofOption (part? : Json → Option Json) (reached : Option Json) :
    onParts (fun v => .ok (orNothing (part? v).toList)) [Found.ofOption reached] =
      .ok [Found.ofOption (reached.bind part?)] := by
  cases reached with
  | none => rfl
  | some v =>
    cases h : part? v <;>
      simp [onParts, Found.ofOption, orNothing, h, Except.map, pure, Except.pure, bind, Except.bind]

/-- **Following the step of a move is making the move** (`follow`, `Move.apply`); where nothing
was reached nothing is. -/
theorem follow_step [Pattern.Engine] (document : Json) (entries : Bool) (move : Move)
    (reached : Option Json) :
    follow document entries move.step [Found.ofOption reached] =
      .ok [Found.ofOption (reached.bind fun v => move.apply v)] := by
  cases move with
  | dotted name => exact onParts_ofOption (Json.member? name) reached
  | quoted mark name => exact onParts_ofOption (Json.member? name) reached
  | item n hfits =>
    have hindex : ∀ v : Json, ((index? (Chars.digits n)).bind fun i => v.item? i) = v.item? n := by
      intro v
      rw [index?_digits hfits, Option.bind_some]
    simp only [Move.step, follow, hindex]
    exact onParts_ofOption (Json.item? n) reached

/-- **Following the steps of a chain is making its moves** (`followChain`, `traverse`), one after
the other. -/
theorem followChain_steps [Pattern.Engine] (document : Json) (entries : Bool) (moves : List Move)
    (reached : Option Json) :
    followChain document entries (moves.map Move.step) [Found.ofOption reached] =
      .ok [Found.ofOption (reached.bind (traverse moves))] := by
  induction moves generalizing reached with
  | nil => cases reached <;> rfl
  | cons move moves ih =>
    rw [List.map_cons, followChain, follow_step]
    simp only [ih, Option.bind_assoc]
    rfl

theorem isNumeral_digits {n : Nat} (h : n ≤ maxSignedWord) : isNumeral (Chars.digits n) = true := by
  have hindex := index?_digits h
  unfold index? at hindex
  unfold isNumeral
  cases hvalue : numeralValue? (Chars.digits n) with
  | some v => rfl
  | none => simp [hvalue] at hindex

/-- Every index of a chain of moves is one. -/
theorem indicesOkIn_steps (moves : List Move) :
    indicesOkIn (.root :: moves.map Move.step) = true := by
  have hmoves : indicesOkIn (moves.map Move.step) = true := by
    induction moves with
    | nil => rfl
    | cons move moves ih =>
      have hstep : indicesOk move.step = true := by
        cases move with
        | dotted | quoted => rfl
        | item n hfits => simp [Move.step, indicesOk, index?_digits hfits]
      rw [List.map_cons, indicesOkIn, hstep, ih]
      rfl
  rw [indicesOkIn, hmoves]
  rfl

theorem badNumeralIn?_steps (moves : List Move) :
    badNumeralIn? (.root :: moves.map Move.step) = none := by
  have hmoves : badNumeralIn? (moves.map Move.step) = none := by
    induction moves with
    | nil => rfl
    | cons move moves ih =>
      have hstep : badNumeral? move.step = none := by
        cases move with
        | dotted | quoted => rfl
        | item n hfits => simp [Move.step, badNumeral?, isNumeral_digits hfits]
      rw [List.map_cons, badNumeralIn?, hstep]
      exact ih
  rw [badNumeralIn?]
  exact hmoves

/-- **The path of a chain of moves leads where the moves lead**: `Path.evaluate` against
`traverse`. -/
theorem evaluate_steps [Pattern.Engine] (source : String) (moves : List Move) (document : Json) :
    evaluate ⟨source, .root :: moves.map Move.step, true⟩ document =
      .ok (traverse moves document) := by
  have hroot : follow document (endsInCount (.root :: moves.map Move.step)) .root
      [.part document] = .ok [Found.ofOption (some document)] := rfl
  have hvalue : ∀ reached, ([Found.ofOption reached].filterMap Found.value?).head? = reached := by
    intro reached
    cases reached <;> rfl
  unfold evaluate select
  rw [if_pos (indicesOkIn_steps moves), followChain, hroot]
  simp only [followChain_steps, Except.map, hvalue, if_true, Option.bind_some]

/-! ## The expression of a chain of moves -/

theorem isBlank_of_isWordChar {c : Char} (h : isWordChar c = true) : Chars.isBlank c = false := by
  have hrange : 45 ≤ c.toNat ∧ c.toNat ≤ 122 := by
    simp only [isWordChar, Chars.isLetter, Chars.isDigit, Bool.or_eq_true, Bool.and_eq_true,
      decide_eq_true_eq, beq_iff_eq] at h
    have hsmall : 'a' ≤ c ∧ c ≤ 'z' → 97 ≤ c.toNat ∧ c.toNat ≤ 122 := id
    have hcapital : 'A' ≤ c ∧ c ≤ 'Z' → 65 ≤ c.toNat ∧ c.toNat ≤ 90 := id
    have hdigit : '0' ≤ c ∧ c ≤ '9' → 48 ≤ c.toNat ∧ c.toNat ≤ 57 := id
    rcases h with (((h | h) | h) | rfl) | rfl
    · have := hsmall h
      omega
    · have := hcapital h
      omega
    · have := hdigit h
      omega
    · decide
    · decide
  rw [Bool.eq_false_iff]
  intro hblank
  simp only [Chars.isBlank, Bool.or_eq_true, Bool.and_eq_true, decide_eq_true_eq,
    beq_iff_eq] at hblank
  omega

/-- A move ends with no blank. -/
theorem getLast?_text (move : Move) :
    ∃ d, move.text.getLast? = some d ∧ Chars.isBlank d = false := by
  cases move with
  | dotted name hne hname =>
    refine ⟨name.toList.getLast hne, ?_, ?_⟩
    · rw [Move.text, List.getLast?_cons, List.getLast?_eq_some_getLast hne]
      rfl
    · exact isBlank_of_isWordChar (hname _ (List.getLast_mem hne))
  | quoted mark name hne hname => exact ⟨']', by simp [Move.text, List.getLast?_cons], rfl⟩
  | item n hfits => exact ⟨']', by simp [Move.text, List.getLast?_cons], rfl⟩

theorem getLast?_movesText {moves : List Move} (h : moves ≠ []) :
    ∃ d, (movesText moves).getLast? = some d ∧ Chars.isBlank d = false := by
  obtain ⟨d, hd, hblank⟩ := getLast?_text (moves.getLast h)
  refine ⟨d, ?_, hblank⟩
  rw [← List.dropLast_concat_getLast h, movesText, List.flatMap_append]
  simp [List.getLast?_append, hd]

theorem trim_fullText (moves : List Move) : Chars.trim (fullText moves) = fullText moves := by
  cases moves with
  | nil => rfl
  | cons move moves =>
    obtain ⟨d, hlast, hd⟩ := getLast?_movesText (List.cons_ne_nil move moves)
    refine Chars.trim_of_ends (c := '$') rfl rfl (d := d) ?_ hd
    rw [fullText, List.getLast?_cons, hlast]
    rfl

/-- **What the full form of a text denotes** (`Path.normalized`) is what the text denotes. -/
theorem denotes_of_normalized [Pattern.Engine] {source : List Char} {moves : List Move}
    (hne : source ≠ [])
    (htrim : Chars.trim source = source) (hfull : normalized source = fullText moves) :
    Denotes (String.ofList source) moves := by
  refine ⟨⟨String.ofList source, .root :: moves.map Move.step, true⟩, ?_, rfl, ?_⟩
  · have hsome : source.isEmpty = false := List.isEmpty_eq_false_iff.2 hne
    unfold parse
    simp [htrim, hsome, hfull, chainOf?_fullText, badNumeralIn?_steps, isDefinite_fullText]
  · exact evaluate_steps _ moves

/-- The full form of a short text is the full text; the short text has no blanks to take off. -/
theorem shortText_spec (move : Move) (moves : List Move) :
    shortText (move :: moves) ≠ [] ∧
      Chars.trim (shortText (move :: moves)) = shortText (move :: moves) ∧
      normalized (shortText (move :: moves)) = fullText (move :: moves) := by
  obtain ⟨d, hlast, hd⟩ := getLast?_movesText (List.cons_ne_nil move moves)
  -- behind a bracket nothing is left out
  have hbracket : ∀ s, movesText (move :: moves) = '[' :: s →
      shortText (move :: moves) ≠ [] ∧
        Chars.trim (shortText (move :: moves)) = shortText (move :: moves) ∧
        normalized (shortText (move :: moves)) = fullText (move :: moves) := by
    intro s hs
    have hshort : shortText (move :: moves) = '[' :: s := by simp [shortText, hs]
    rw [hs] at hlast
    rw [hshort, fullText, hs]
    exact ⟨List.cons_ne_nil _ _, Chars.trim_of_ends rfl rfl hlast hd, rfl⟩
  cases move with
  | quoted mark name hne hname => exact hbracket _ rfl
  | item n hfits => exact hbracket _ rfl
  | dotted name hne hname =>
    obtain ⟨c, t, hct⟩ := List.exists_cons_of_ne_nil hne
    have hc : isWordChar c = true := hname c (by simp [hct])
    have hshort : shortText (.dotted name hne hname :: moves) = c :: (t ++ movesText moves) := by
      simp [shortText, Move.text, hct]
    have hfull : fullText (.dotted name hne hname :: moves) =
        '$' :: '.' :: c :: (t ++ movesText moves) := by
      simp [fullText, Move.text, hct]
    have hend : (c :: (t ++ movesText moves)).getLast? = some d := by
      rw [← hlast]
      simp [Move.text, hct, List.getLast?_cons]
    rw [hshort, hfull]
    refine ⟨List.cons_ne_nil _ _, Chars.trim_of_ends rfl (isBlank_of_isWordChar hc) hend hd, ?_⟩
    have hroot := ne_of_isWordChar (d := '$') hc rfl
    have hopen := ne_of_isWordChar (d := '[') hc rfl
    have hdot := ne_of_isWordChar (d := '.') hc rfl
    simp [normalized, hroot, hopen, hdot]

/-- **Definite paths are plain traversal.**  The text of the sign of the document and a chain of
moves (`fullText`) is a definite path, and in every document it leads where the moves lead
(`traverse`), or to nothing as soon as one does not apply; so does the text without the sign
(`shortText`), if there is a move. -/
theorem denotes_traversal [Pattern.Engine] (moves : List Move) :
    Denotes (String.ofList (fullText moves)) moves ∧
      (moves ≠ [] → Denotes (String.ofList (shortText moves)) moves) := by
  constructor
  · exact denotes_of_normalized (List.cons_ne_nil _ _) (trim_fullText moves) rfl
  · intro hne
    obtain ⟨move, moves, rfl⟩ := List.exists_cons_of_ne_nil hne
    obtain ⟨hsome, htrim, hfull⟩ := shortText_spec move moves
    exact denotes_of_normalized hsome htrim hfull

namespace HostileNames

/-- A name that holds every mark there is, an index, and a name that is the word for counting. -/
def moves : List Move :=
  [.quoted .double "$..*[?(@,:)]. " (by decide) (List.all_eq_true.1 (by decide)),
    .item 0 (by decide), .dotted "length" (by decide) (List.all_eq_true.1 (by decide))]

/-- A document in which the moves reach a null. -/
def document : Json :=
  .object [("$..*[?(@,:)]. ", .array [.object [("length", .null)]])]

end HostileNames

/-- Marks between quotes are no marks, and the null that is reached is found. -/
theorem denotes_traversal_hostile :
    HostileNames.moves ≠ [] ∧
    String.ofList (shortText HostileNames.moves) = "[\"$..*[?(@,:)]. \"][0].length" ∧
    ∃ path, parse "[\"$..*[?(@,:)]. \"][0].length" = .ok path ∧ path.definite = true ∧
      path.evaluate HostileNames.document = .ok (some .null) ∧ path.evaluate .null = .ok none := by
  have hne : HostileNames.moves ≠ [] := List.cons_ne_nil _ _
  have htext : String.ofList (shortText HostileNames.moves) =
      "[\"$..*[?(@,:)]. \"][0].length" := by decide +kernel
  obtain ⟨path, hparse, hdefinite, hvalue⟩ := (denotes_traversal HostileNames.moves).2 hne
  rw [htext] at hparse
  exact ⟨hne, htext, path, hparse, hdefinite, hvalue _, hvalue _⟩

end RestCase.Path
