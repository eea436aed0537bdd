/-
# RestCase.Path.Reader — the written form of paths

`Path.parse` reads a path by ordered choice: of the ways to read a step the first that fits is
taken.  Gaps may stand between the parts of a step, but not inside a member name, a quoted text or a
number.  A numeral read as the one index of a step takes a gap after its first digit with it
(`Path.afterSpacedDigits`), which no number allows.

A path is *definite* when its text, quoted stretches left out, shows none of the marks of a step
that can lead to several places (`Path.isDefinite`, `definiteFrom_of_plain`).

Boundary: that scan knows nothing of steps, and does not always agree with the reader.
`RestCase.Proofs.Path.Definiteness` says where it does.
-/
import RestCase.Chars.Search
import RestCase.Path.Basic

namespace RestCase.Path

/-- A text without the gaps at its start. -/
def skipGaps : List Char → List Char
  | ' ' :: r => skipGaps r
  | '\t' :: r => skipGaps r
  | '\n' :: r => skipGaps r
  -- a carriage return is a gap before a line feed only
  | '\r' :: '\n' :: r => skipGaps r
  | s => s

/-- The text after a word and the gaps behind it. -/
def pass? (word : String) (s : List Char) : Option (List Char) :=
  (Chars.afterPrefix? word.toList s).map skipGaps

/-- The text after a word that may be missing. -/
def passOptional (word : String) (s : List Char) : List Char := (pass? word s).getD s

/-- What has been read of `s` when `rest` is left. -/
def readUpTo (s rest : List Char) : List Char := s.take (s.length - rest.length)

/-! ## Names, quoted texts and numbers -/

/-- A character of a member name. -/
def isNameChar (c : Char) : Bool :=
  Chars.isLetter c || Chars.isDigit c || c == '_' || c == '-' || c == '/' || c == '\\' || c == '#'

/-- A member name without quotes; the count of items is none. -/
def readName? (s : List Char) : Option (String × List Char) :=
  -- what begins like the count is no name, whatever follows
  if "length()".toList.isPrefixOf s then none
  else match s.takeWhile isNameChar with
    | [] => none
    | name => some (String.ofList name, s.dropWhile isNameChar)

/-- The text after the characters that can stand between quotes. -/
def afterInner : List Char → List Char
  | '\\' :: 'u' :: a :: b :: c :: d :: r =>
    if [a, b, c, d].all Chars.isHexDigit then afterInner r
    else '\\' :: 'u' :: a :: b :: c :: d :: r
  | '\\' :: c :: r =>
    if "\"'\\/bfnrt()".toList.contains c then afterInner r else '\\' :: c :: r
  | '\\' :: r => '\\' :: r
  | '\'' :: r => '\'' :: r
  | '"' :: r => '"' :: r
  | _ :: r => afterInner r
  | [] => []

/-- A text between two equal quotes, escapes left as they are written. -/
def readQuoted? (s : List Char) : Option (String × List Char) :=
  match s with
  | [] => none
  | q :: r =>
    if q = '\'' ∨ q = '"' then
      match afterInner r with
      | c :: rest => if c = q then some (String.ofList (readUpTo r (c :: rest)), rest) else none
      | [] => none
    else none

/-- A quoted member name in brackets, without gaps. -/
def readBracketName? : List Char → Option (String × List Char)
  | '[' :: r =>
    match readQuoted? r with
    | some (name, ']' :: rest) => some (name, rest)
    | _ => none
  | _ => none

/-- A member name, plain or in brackets. -/
def readKey? (s : List Char) : Option (String × List Char) :=
  (readName? s).orElse fun _ => readBracketName? s

/-- The text after the digits at its start. -/
def afterDigits (s : List Char) : List Char := s.dropWhile Chars.isDigit

/-- The text after a part that needs one digit at least. -/
def afterSomeDigits? (s : List Char) : Option (List Char) :=
  match s with
  | c :: r => if Chars.isDigit c then some (afterDigits r) else none
  | [] => none

/-- The text after a fraction, if there is one. -/
def afterFraction (s : List Char) : List Char :=
  match s with
  | '.' :: r => (afterSomeDigits? r).getD s
  | _ => s

/-- The text after an exponent, if there is one. -/
def afterExponent (s : List Char) : List Char :=
  match s with
  | c :: r =>
    if c = 'e' ∨ c = 'E' then
      let unsigned := match r with
        | '+' :: t => t
        | '-' :: t => t
        | _ => r
      (afterSomeDigits? unsigned).getD s
    else s
  | [] => s

/-- A number without gaps: sign, digits without a needless zero, fraction, exponent. -/
def readNumber? (s : List Char) : Option (List Char × List Char) :=
  let unsigned := match s with
    | '-' :: t => t
    | _ => s
  let whole := match unsigned with
    -- no digit of the whole part follows a zero
    | '0' :: r => some r
    | c :: r => if Chars.isDigit c then some (afterDigits r) else none
    | [] => none
  whole.map fun r =>
    let rest := afterExponent (afterFraction r)
    (readUpTo s rest, rest)

/-- The text after further digits, each with gaps before it. -/
def afterSpacedDigits : Nat → List Char → List Char
  | 0, s => s
  | n + 1, s =>
    match skipGaps s with
    | c :: r => if Chars.isDigit c then afterSpacedDigits n r else s
    | [] => s

/-- A natural number, in which gaps may stand: `0`, or a first digit with the gaps behind it and
further digits. -/
def readNatural? (s : List Char) : Option (List Char × List Char) :=
  match s with
  | '0' :: r => some (['0'], r)
  | c :: r =>
    if Chars.isDigit c then
      let rest := afterSpacedDigits r.length (skipGaps r)
      some (readUpTo s rest, rest)
    else none
  | [] => none

/-- An integer: a natural number behind a sign, gaps included. -/
def readInteger? (s : List Char) : Option (List Char × List Char) :=
  match s with
  | '-' :: r => (readNatural? (skipGaps r)).map fun n => (readUpTo s n.2, n.2)
  | _ => readNatural? s

/-! ## Lists and slices -/

/-- A separator and an item, once and again, gaps between them ignored. -/
def readMore {α : Type} (item? : List Char → Option (α × List Char)) :
    Nat → List Char → List α × List Char
  | 0, s => ([], s)
  | n + 1, s =>
    match (pass? "," (skipGaps s)).bind item? with
    | some (x, r) =>
      let more := readMore item? n r
      (x :: more.1, more.2)
    | none => ([], s)

/-- Two or more items between commas. -/
def readSeveral? {α : Type} (item? : List Char → Option (α × List Char)) (s : List Char) :
    Option (List α × List Char) :=
  match item? s with
  | some (x, r) =>
    match readMore item? r.length r with
    | ([], _) => none
    | (more, rest) => some (x :: more, rest)
  | none => none

/-- The bound of a slice that a text denotes; zero for one that is no 32-bit integer, as
`readSlice?` takes any integer. -/
def boundOf (s : List Char) : Int :=
  match s with
  | '-' :: d =>
    if !d.isEmpty && d.all Chars.isDigit && Chars.ofDigits d ≤ 0x80000000 then
      -(Chars.ofDigits d : Int)
    else 0
  | d =>
    if !d.isEmpty && d.all Chars.isDigit && Chars.ofDigits d < 0x80000000 then
      (Chars.ofDigits d : Int)
    else 0

/-- The stride that a text denotes; one for a text that is no word. -/
def strideOf (d : List Char) : Nat :=
  if !d.isEmpty && d.all Chars.isDigit && Chars.ofDigits d ≤ Chars.maxWord64 then Chars.ofDigits d
  else 1

/-- A slice: bounds and a stride around colons, each of which may be missing. -/
def readSlice? (s : List Char) : Option (Step × List Char) :=
  let (start, s) := match readInteger? s with
    | some (t, r) => (boundOf t, skipGaps r)
    | none => (0, s)
  (pass? ":" s).map fun s =>
    let (stop, s) := match readInteger? s with
      | some (t, r) => (boundOf t, skipGaps r)
      | none => (0, s)
    match (pass? ":" s).bind readNatural? with
    | some (t, r) => (.slice start stop (strideOf t), r)
    | none => (.slice start stop 1, s)

/-! ## Steps and filters -/

/-- The relations in the order in which they are looked for. -/
def relations : List (String × Relation) :=
  -- the longer of two marks that begin alike stands first
  [("==", .eq), ("!=", .ne), ("~=", .matchesPattern), (">=", .ge), (">", .gt), ("<=", .le),
    ("<", .lt), ("in", .isIn), ("nin", .isNotIn), ("size", .hasSize), ("noneOf", .noneOf),
    ("anyOf", .anyOf), ("subsetOf", .subsetOf)]

/-- A relation. -/
def readRelation? (s : List Char) : Option (Relation × List Char) :=
  relations.findSome? fun r => (Chars.afterPrefix? r.1.toList s).map fun rest => (r.2, rest)

/-- A word that is an operand of its own. -/
def readWord? (s : List Char) : Option (Json × List Char) :=
  [("true", Json.bool true), ("false", .bool false), ("null", .null)].findSome? fun w =>
    (Chars.afterPrefix? w.1.toList s).map fun rest => (w.2, rest)

/-- The operand that a chain makes: a lone member or union is a constant list. -/
def operandOf : List Step → Operand
  | [.members names] => .constant (.array (names.map .string))
  | [.items numerals] => .constant (.array (numerals.filterMap numeralValue?))
  | [.member name] => .constant (.array [.string name])
  | chain => .path chain

/-- A step that no brackets or filters are part of. -/
def readPlainStep? (s : List Char) : Option (Step × List Char) :=
  -- the sign of the document may stand anywhere in a chain, and leads back to it
  ((pass? "$" s).map fun r => (Step.root, r))
  <|> (((pass? "." s).bind (pass? ".")).bind fun r =>
    ((readKey? r).map fun k => (Step.descent k.1, k.2))
    <|> (pass? "*" r).map fun r => (Step.descentAll, r))
  <|> ((((pass? "[" (passOptional "." s)).bind (pass? "*")).bind (pass? "]")).map
    fun r => (Step.wildcard, r))
  <|> (((pass? "." s).bind (pass? "*")).map fun r => (Step.wildcard, r))

/-- A member: a name in brackets, with or without a dot before it, or a dot and a plain name. -/
def readMember? (s : List Char) : Option (Step × List Char) :=
  let undotted := match s with
    | '.' :: r => r
    | _ => s
  ((readBracketName? undotted)
    <|> (match s with
      | '.' :: r => readName? r
      | _ => none)).map fun k => (.member k.1, k.2)

/-- The count of items. -/
def readLength? (s : List Char) : Option (Step × List Char) :=
  (pass? "." s >>= pass? "length" >>= pass? "(" >>= pass? ")").map fun r => (.length, r)

/-- What stands between brackets, filters apart. -/
def readSelector? (s : List Char) : Option (Step × List Char) :=
  ((readSeveral? readQuoted? s).map fun k => (Step.members k.1, k.2))
  <|> ((readSeveral? readNumber? s).map fun k => (Step.items k.1, k.2))
  <|> readSlice? s
  <|> ((readNatural? s).map fun k => (Step.item k.1, k.2))

mutual
/-- One or more steps. -/
def readChain (fuel : Nat) (s : List Char) : Option (List Step × List Char) :=
  match fuel with
  | 0 => none
  | fuel + 1 =>
    match readStep fuel s with
    | none => none
    | some (step, r) =>
      match readChain fuel (skipGaps r) with
      | some (more, rest) => some (step :: more, rest)
      -- the gaps behind the last step are read with it
      | none => some ([step], skipGaps r)

/-- One step. -/
def readStep (fuel : Nat) (s : List Char) : Option (Step × List Char) :=
  match fuel with
  | 0 => none
  | fuel + 1 =>
    match readPlainStep? s with
    | some found => some found
    | none =>
      match pass? "@" s with
      | some r =>
        match readChain fuel r with
        | some (chain, rest) => some (.here chain, rest)
        | none => some (.here [], r)
      | none =>
        match readMember? s with
        | some found => some found
        | none =>
          match readBracket fuel s with
          | some found => some found
          | none => readLength? s

/-- A step in brackets. -/
def readBracket (fuel : Nat) (s : List Char) : Option (Step × List Char) :=
  match fuel with
  | 0 => none
  | fuel + 1 => do
    let r ← pass? "[" (passOptional "." s)
    let (step, r) ← match readSelector? r with
      | some found => some found
      | none => do
        let r ← (pass? "?" r).bind (pass? "(")
        let (condition, r) ← readOr fuel r
        let r ← pass? ")" (skipGaps r)
        some (Step.filter condition, r)
    let r ← pass? "]" (skipGaps r)
    some (step, r)

/-- A condition. -/
def readOr (fuel : Nat) (s : List Char) : Option (Filter × List Char) :=
  match fuel with
  | 0 => none
  | fuel + 1 => do
    let (left, r) ← readAnd fuel s
    readOrRest fuel left r

/-- Further alternatives of a condition. -/
def readOrRest (fuel : Nat) (left : Filter) (s : List Char) : Option (Filter × List Char) :=
  match fuel with
  | 0 => some (left, s)
  | fuel + 1 =>
    match (pass? "||" (skipGaps s)).bind (readAnd fuel) with
    | some (right, r) => readOrRest fuel (.or left right) r
    | none => some (left, s)

/-- An alternative of a condition. -/
def readAnd (fuel : Nat) (s : List Char) : Option (Filter × List Char) :=
  match fuel with
  | 0 => none
  | fuel + 1 => do
    let (left, r) ← readNot fuel s
    readAndRest fuel left r

/-- Further parts of an alternative. -/
def readAndRest (fuel : Nat) (left : Filter) (s : List Char) : Option (Filter × List Char) :=
  match fuel with
  | 0 => some (left, s)
  | fuel + 1 =>
    match (pass? "&&" (skipGaps s)).bind (readNot fuel) with
    | some (right, r) => readAndRest fuel (.and left right) r
    | none => some (left, s)

/-- A part of an alternative, possibly negated. -/
def readNot (fuel : Nat) (s : List Char) : Option (Filter × List Char) :=
  match fuel with
  | 0 => none
  | fuel + 1 =>
    match pass? "!" s with
    | some r => (readTest fuel r).map fun f => (.not f.1, f.2)
    | none => readTest fuel s

/-- A comparison, an operand that has to exist, or a condition in parentheses. -/
def readTest (fuel : Nat) (s : List Char) : Option (Filter × List Char) :=
  match fuel with
  | 0 => none
  | fuel + 1 =>
    match readOperand fuel s with
    | some (left, r) =>
      match (readRelation? (skipGaps r)).bind fun (relation, t) =>
          (readOperand fuel (skipGaps t)).map fun (right, rest) => (relation, right, rest) with
      | some (relation, right, rest) => some (.compare left relation right, rest)
      -- what follows is no relation with an operand, and is left
      | none => some (.exist left, r)
    | none => do
      let r ← pass? "(" s
      let (condition, r) ← readOr fuel r
      let r ← pass? ")" (skipGaps r)
      some (condition, r)

/-- An operand: a path, a quoted text, a number or a word. -/
def readOperand (fuel : Nat) (s : List Char) : Option (Operand × List Char) :=
  match fuel with
  | 0 => none
  | fuel + 1 =>
    match readChain fuel s with
    | some (chain, r) => some (operandOf chain, r)
    | none =>
      ((readQuoted? s).map fun k => (.constant (.string k.1), k.2))
      <|> ((readNumber? s).bind fun k => (numeralValue? k.1).map fun v => (.constant v, k.2))
      <|> (readWord? s).map fun k => (.constant k.1, k.2)
end

/-- The steps that a whole text denotes, by `readChain` with a turn for each of its characters. -/
def chainOf? (text : List Char) : Option (List Step) :=
  -- fewer than ten calls lie between one character that is read and the next
  match readChain (10 * text.length + 10) (skipGaps text) with
  | some (chain, rest) => if (skipGaps rest).isEmpty then some chain else none
  | none => none

/-! ## Definite paths -/

/-- Whether the rest of a text shows no mark of several places: `quote` is the open quote, `depth`
the number of open brackets, `dot` tells whether a dot stands just before.  An escaped quote
closes the stretch like any other, unlike in `readQuoted?`. -/
def definiteFrom (quote : Option Char) (depth : Nat) (dot : Bool) : List Char → Bool
  | [] => true
  | c :: r =>
    match quote with
    -- between quotes only the same quote counts: a backslash before it does not
    | some q => definiteFrom (if c = q then none else quote) depth (c == '.') r
    | none =>
      if c = '\'' ∨ c = '"' then definiteFrom (some c) depth false r
      else if c = '*' then false
      else if c = '.' ∧ dot = true then false
      else if c = '[' then definiteFrom none (depth + 1) false r
      else if c = ']' then definiteFrom none (depth - 1) false r
      -- outside brackets these stand for nothing
      else if (c = '?' ∨ c = ':' ∨ c = ',') ∧ 0 < depth then false
      else definiteFrom none depth (c == '.') r

/-- Whether a text shows no mark of several places (`definiteFrom`).  The text is looked at, not
the steps that it denotes. -/
def isDefinite (text : List Char) : Bool := definiteFrom none 0 false text

theorem definiteFrom_of_plain {text : List Char} (h : ∀ c ∈ text, isNameChar c = true)
    (depth : Nat) (dot : Bool) (r : List Char) :
    definiteFrom none depth dot (text ++ r) =
      definiteFrom none depth (dot && text.isEmpty) r := by
  induction text generalizing dot with
  | nil => simp
  | cons c text ih =>
    have hc : isNameChar c = true := h c List.mem_cons_self
    have ne : ∀ d : Char, isNameChar d = false → c ≠ d := by
      intro d hd hcd
      rw [hcd, hd] at hc
      exact absurd hc (by decide)
    have h₁ := ne '\'' (by decide)
    have h₂ := ne '"' (by decide)
    have h₃ := ne '*' (by decide)
    have h₄ := ne '.' (by decide)
    have h₅ := ne '[' (by decide)
    have h₆ := ne ']' (by decide)
    have h₇ := ne '?' (by decide)
    have h₈ := ne ':' (by decide)
    have h₉ := ne ',' (by decide)
    have h₀ : (c == '.') = false := by simpa using h₄
    simp [definiteFrom, h₀, h₁, h₂, h₃, h₄, h₅, h₆, h₇, h₈, h₉,
      ih (fun d hd => h d (List.mem_cons_of_mem _ hd))]

/-! ## Parsing -/

/-- Why a text is no path. -/
inductive Fault where
  | blank
  | unreadable (source : String)
  | numeral (source : String) (numeral : List Char)
  deriving DecidableEq, Repr

/-- The words for a fault. -/
def Fault.message : Fault → String
  | blank => "empty path expression"
  | unreadable source => "invalid path '" ++ source ++ "': Failed to parse rule"
  | numeral source n =>
    "invalid path '" ++ source ++ "': Failed to parse " ++ String.ofList n
      ++ " as either f64 or i64"

mutual
/-- The first index of a chain that is no number. -/
def badNumeral? : Step → Option (List Char)
  | .item n => if isNumeral n then none else some n
  | .here chain => badNumeralIn? chain
  | .filter f => badNumeralOf? f
  | _ => none

/-- The first index in a chain that is no number. -/
def badNumeralIn? : List Step → Option (List Char)
  | [] => none
  | s :: r =>
    match badNumeral? s with
    | some n => some n
    | none => badNumeralIn? r

/-- The first index in a condition that is no number. -/
def badNumeralOf? : Filter → Option (List Char)
  | .exist a => badNumeralAt? a
  | .compare a _ b =>
    match badNumeralAt? a with
    | some n => some n
    | none => badNumeralAt? b
  | .and a b =>
    match badNumeralOf? a with
    | some n => some n
    | none => badNumeralOf? b
  | .or a b =>
    match badNumeralOf? a with
    | some n => some n
    | none => badNumeralOf? b
  | .not a => badNumeralOf? a

/-- The first index in an operand that is no number. -/
def badNumeralAt? : Operand → Option (List Char)
  | .constant _ => none
  | .path chain => badNumeralIn? chain
end

/-- The full form of a path: the sign of the document and a dot may be left out. -/
def normalized (source : List Char) : List Char :=
  match source with
  | '$' :: _ => source
  | '[' :: _ => '$' :: source
  | '.' :: _ => '$' :: source
  | _ => '$' :: '.' :: source

/-- The path that a text denotes: the steps of its `normalized` form (`chainOf?`) and its
definiteness (`isDefinite`), or a `Fault`. -/
def parse (expression : String) : Except Fault Path :=
  let source := Chars.trim expression.toList
  let shown := String.ofList source
  if source.isEmpty then .error .blank
  else
    let text := normalized source
    match chainOf? text with
    | none => .error (.unreadable shown)
    | some chain =>
      match badNumeralIn? chain with
      | some n => .error (.numeral shown n)
      | none => .ok ⟨shown, chain, isDefinite text⟩

end RestCase.Path
