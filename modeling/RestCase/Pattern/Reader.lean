/-
# RestCase.Pattern.Reader — the written form of patterns

`Pattern.written?` either gives the pattern that a text denotes or finds that the text is none; why
it is none is never asked.  `Pattern.ofChars?` asks the engine in addition whether the pattern is
too large to be used.

The notation has groups, alternatives, repetitions with `?`, `*`, `+` and counts, bracketed sets
with nesting and set operations, named properties, conditions on places, and flags that hold to the
end of the group in which they are set: `i` (case is ignored), `m` (`^` and `$` stand at lines), `s`
(a dot takes line feeds), `R` (carriage returns end lines), `x` (blanks and comments are skipped),
`u` (sets reach beyond ASCII) and `U`.

A pattern may nest `Pattern.nestLimit` levels deep.  Levels are counted on the pattern as it is read
(`Nested`, `Gathered`): a group, a repetition, a bracketed set and parts that stand side by side are
a level each.

Boundary: there is no looking ahead or behind and no reference back to a group, since no match of
them is a relation between places.
-/
import RestCase.Pattern.Engine

namespace RestCase.Pattern

variable [Engine]

/-! ## The state of reading -/

/-- The flags in force. -/
structure Flags where
  ignoreCase : Bool
  multiLine : Bool
  dotAll : Bool
  returns : Bool
  verbose : Bool
  unicode : Bool
  deriving DecidableEq, Repr

/-- The flags at the start of a pattern. -/
def Flags.initial : Flags := ⟨false, false, false, false, false, true⟩

/-- What reading has come to: the flags, the names of groups so far, and the text that is left. -/
structure Reading where
  flags : Flags
  names : List (List Char)
  rest : List Char

/-- A step of reading. -/
abbrev Reader (α : Type) := Reading → Option (α × Reading)

namespace Reader

/-- A step that reads nothing. -/
def done {α : Type} (x : α) : Reader α := fun r => some (x, r)

/-- A step that finds the text to be no pattern. -/
def refuse {α : Type} : Reader α := fun _ => none

instance : Monad Reader where
  pure := done
  bind m f r := (m r).bind fun (x, r') => f x r'

/-- The next character. -/
def peek : Reader (Option Char) := fun r => some (r.rest.head?, r)

/-- The text that is left. -/
def remaining : Reader (List Char) := fun r => some (r.rest, r)

/-- The flags in force. -/
def flags : Reader Flags := fun r => some (r.flags, r)

/-- Put other flags in force. -/
def setFlags (f : Flags) : Reader Unit := fun r => some ((), { r with flags := f })

/-- Go on with another text. -/
def goTo (rest : List Char) : Reader Unit := fun r => some ((), { r with rest := rest })

/-- Pass over one character. -/
def bump : Reader Unit := fun r => some ((), { r with rest := r.rest.drop 1 })

/-- Pass over one character, which has to be `c`. -/
def expect (c : Char) : Reader Unit := fun r =>
  match r.rest with
  | d :: rest => if d = c then some ((), { r with rest := rest }) else none
  | [] => none

end Reader

open Reader

/-- A text without leading blanks and comments. -/
def skipComments : Bool → List Char → List Char
  | _, [] => []
  -- a comment reaches to the end of its line
  | true, c :: r => if c = '\n' then skipComments false r else skipComments true r
  | false, c :: r =>
    if Chars.isBlank c then skipComments false r
    else if c = '#' then skipComments true r
    else c :: r

/-- The text after what is skipped under the flags. -/
def afterGaps (f : Flags) (s : List Char) : List Char :=
  if f.verbose then skipComments false s else s

/-- Skip blanks and comments where the flags say so. -/
def skip : Reader Unit := fun r => some ((), { r with rest := afterGaps r.flags r.rest })

/-- Pass over one character and what is skipped after it. -/
def bumpSkip : Reader Unit := do bump; skip

/-! ## Levels -/

/-- What was read of a text, and how many levels stand in each other in that text.  A group, a
repetition and a bracketed set are a level each; `nestLimit` bounds them. -/
structure Nested (α : Type) where
  value : α
  depth : Nat
  deriving DecidableEq, Repr

/-- What was read of parts that stand side by side: how many there are, and the levels in the
deepest of them. -/
structure Gathered (α : Type) where
  value : α
  count : Nat
  deepest : Nat

namespace Gathered

/-- Nothing was read yet. -/
def start {α : Type} (x : α) : Gathered α := ⟨x, 0, 0⟩

/-- One more part, with which `x` has been read. -/
def add {α : Type} (g : Gathered α) (x : α) (depth : Nat) : Gathered α :=
  ⟨x, g.count + 1, max g.deepest depth⟩

/-- The parts as a whole, which are a level of their own if there are several: one part alone
stands for itself. -/
def whole {α : Type} (g : Gathered α) : Nested α :=
  ⟨g.value, if g.count ≤ 1 then g.deepest else g.deepest + 1⟩

end Gathered

/-! ## Flags -/

/-- The flags changed by one letter. -/
def Flags.set? (f : Flags) (letter : Char) (value : Bool) : Option Flags :=
  match letter with
  | 'i' => some { f with ignoreCase := value }
  | 'm' => some { f with multiLine := value }
  | 's' => some { f with dotAll := value }
  | 'R' => some { f with returns := value }
  | 'x' => some { f with verbose := value }
  | 'u' => some { f with unicode := value }
  -- this one makes repetitions reluctant, and the same texts match
  | 'U' => some f
  | _ => none

/-- The flags changed by a list of letters, in which one `-` turns to clearing.  A letter may not
come twice, nor the hyphen, nor may the hyphen come last. -/
def Flags.change? (f : Flags) (value : Bool) (seen : List Char) : List Char → Option Flags
  | [] => if seen.head? = some '-' then none else some f
  | c :: r =>
    if seen.contains c then none
    else if c = '-' then f.change? false ('-' :: seen) r
    else (f.set? c value).bind fun g => g.change? value (c :: seen) r

/-! ## Literals and sets under the flags -/

/-- A set as the flags take it: up to case where case is ignored, within ASCII without `u`. -/
def Flags.adjust (f : Flags) (s : CharSet) : CharSet :=
  match f.ignoreCase, f.unicode with
  | true, true => .folded s
  | true, false => .inter (.folded s) .ascii
  | false, _ => s

/-- A character in a set; without `u` it has to be of ASCII. -/
def literal (c : Char) : Reader CharSet := do
  if (← flags).unicode || c.toNat < 128 then return .single c else refuse

/-- The complement of a set, which exists only with `u`. -/
def complementOf (s : CharSet) : Reader CharSet := do
  if (← flags).unicode then return .complement s else refuse

/-- A set or, where it is negated, its complement. -/
def complementIf (negated : Bool) (s : CharSet) : Reader CharSet :=
  if negated then complementOf s else done s

/-- The set of a one-letter class. -/
def letterClass (c : Char) : Reader CharSet := do
  let u := (← flags).unicode
  match c with
  | 'd' | 'D' =>
    let s := if u then .decimal else .ofIntervals [('0', '9')]
    complementIf (c == 'D') s
  | 's' | 'S' =>
    let s := if u then .blank else .ofIntervals [('\t', '\r'), (' ', ' ')]
    complementIf (c == 'S') s
  | _ =>
    let s : CharSet :=
      if u then .word else .ofIntervals [('0', '9'), ('A', 'Z'), ('_', '_'), ('a', 'z')]
    complementIf (c == 'W') s

/-! ## Escapes -/

/-- What a part of a pattern after a backslash stands for; a character that is given by the two
digits after `\x` alone is also a `byte`. -/
inductive Escape where
  | char (c : Char) (byte : Bool)
  | set (s : CharSet)
  | look (l : Look)

/-- The characters with a meaning of their own. -/
def isMeta (c : Char) : Bool := "\\.+*?()|[]\x7b\x7d^$#&-~".toList.contains c

/-- A character that a backslash leaves as it is. -/
def isEscapable (c : Char) : Bool :=
  isMeta c || (c.toNat < 128 && !(Chars.isLetter c || Chars.isDigit c || c == '<' || c == '>'))

/-- The character with a code point. -/
def charOf? (n : Nat) : Option Char := if n.isValidChar then some (Char.ofNat n) else none

/-- The hexadecimal digits of a code point, a fixed number of them. -/
def readHexDigits : Nat → Nat → Reader Nat
  | 0, value => done value
  | n + 1, value => do
    match ← peek with
    | some c =>
      if Chars.isHexDigit c then do
        bumpSkip
        readHexDigits n (value * 16 + Chars.hexValue c)
      else refuse
    | none => refuse

/-- The hexadecimal digits of a code point up to the closing brace. -/
def readBracedHex : Nat → Nat → Nat → Reader Nat
  | 0, _, _ => refuse
  | fuel + 1, count, value => do
    match ← peek with
    | some '}' => do
      bumpSkip
      -- empty braces hold no number
      if count = 0 then refuse else return value
    | some c =>
      if Chars.isHexDigit c then do
        bumpSkip
        readBracedHex fuel (count + 1) (value * 16 + Chars.hexValue c)
      else refuse
    | none => refuse

/-- The number of a code point, in braces or with a fixed number of digits, and whether it is that
of a byte: two digits without braces. -/
def readCodeNumber (width : Nat) : Reader (Nat × Bool) := do
  match ← peek with
  | some '{' => do
    bumpSkip
    return (← readBracedHex ((← remaining).length + 1) 0 0, false)
  | _ => return (← readHexDigits width 0, width == 2)

/-- The character with a number, if it is one. -/
def escapeOf (n : Nat) (byte : Bool) : Reader Escape :=
  match charOf? n with
  | some c => done (.char c byte)
  | none => refuse

/-- The character of a code point after `\x`, `\u` or `\U`. -/
def readCodePoint (width : Nat) : Reader Escape := do
  let n ← readCodeNumber width
  escapeOf n.1 n.2

/-- The characters of a property name up to the closing brace. -/
def readName : Nat → List Char → Reader (List Char)
  | 0, _ => refuse
  | fuel + 1, name => do
    match ← peek with
    | some '}' => do
      bump
      return name.reverse
    | some c => do
      bumpSkip
      readName fuel (c :: name)
    | none => refuse

/-- The text of a property: one letter, or a name in braces. -/
def readPropertyText : Reader (List Char) := do
  match ← peek with
  | none => refuse
  | some '\\' => refuse
  | some '{' => do
    bumpSkip
    readName ((← remaining).length + 1) []
  | some c => do
    bumpSkip
    return [c]

/-- A property after `\p` or `\P`. -/
def readProperty (negated : Bool) : Reader CharSet := do
  let name ← readPropertyText
  if !(← flags).unicode then refuse
  else match Characters.property? name with
    | none => refuse
    | some (s, opposite) => do
      let s := (← flags).adjust s
      -- a negation in the name takes back the one of the letter
      return if negated != opposite then .complement s else s

/-- The kind of word edge with a name. -/
def wordEdge? (name : String) : Option WordEdge :=
  match name with
  | "start" => some .start
  | "end" => some .finish
  | "start-half" => some .startHalf
  | "end-half" => some .finishHalf
  | _ => none

/-- The letters and hyphens in braces after `\b`. -/
def readEdgeName : Nat → List Char → Reader (List Char)
  | 0, _ => refuse
  | fuel + 1, name => do
    match ← peek with
    | some '}' => do
      bump
      return name.reverse
    | some c =>
      if Chars.isLetter c || c == '-' then do
        bumpSkip
        readEdgeName fuel (c :: name)
      else refuse
    | none => refuse

/-- The word edge that a name in braces tells, the opening one passed; without a letter or a hyphen
there, reading goes back to `here`. -/
def readNamedEdge (ascii : Bool) (here : List Char) : Reader Look := do
  if (← peek).any fun c => Chars.isLetter c || c == '-' then do
    match wordEdge? (String.ofList (← readEdgeName ((← remaining).length + 1) [])) with
    | some edge => return .word edge ascii
    | none => refuse
  else do
    goTo here
    return .word .either ascii

/-- The condition after `\b`, which braces with a name make more special; other braces are left to
be a repetition. -/
def readWordEdge : Reader Look := do
  let ascii := !(← flags).unicode
  let here ← remaining
  if here.head? == some '{' then do
    bumpSkip
    readNamedEdge ascii here
  else return .word .either ascii

/-- What a backslash, which has been passed, and the text after it stand for. -/
def readEscape : Reader Escape := do
  match ← peek with
  | none => refuse
  | some c =>
    -- there are no references back and no octal numbers
    if Chars.isDigit c then refuse
    else if c = 'x' || c = 'u' || c = 'U' then do
      bumpSkip
      readCodePoint (if c = 'x' then 2 else if c = 'u' then 4 else 8)
    else if c = 'p' || c = 'P' then do
      bumpSkip
      return .set (← readProperty (c == 'P'))
    else if "dDsSwW".toList.contains c then do
      bump
      return .set (← letterClass c)
    else do
      bump
      let ascii := !(← flags).unicode
      if isEscapable c then return .char c false
      else match c with
        | 'a' => return .char '\x07' false
        | 'f' => return .char '\x0C' false
        | 't' => return .char '\t' false
        | 'n' => return .char '\n' false
        | 'r' => return .char '\r' false
        | 'v' => return .char '\x0B' false
        | 'A' => return .look .textStart
        | 'z' => return .look .textEnd
        | 'b' => return .look (← readWordEdge)
        | 'B' => return .look (.word .neither ascii)
        | '<' => return .look (.word .start ascii)
        | '>' => return .look (.word .finish ascii)
        | _ => refuse

/-! ## Bracketed sets -/

/-- One item of a set: a character or, after a backslash, possibly a set. -/
def readItem : Reader Escape := do
  match ← peek with
  | some '\\' => do
    bump
    readEscape
  | some c => do
    bump
    return .char c false
  | none => refuse

/-- The set of an item; a condition is none. -/
def itemSet : Escape → Reader CharSet
  | .char c _ => do return (← flags).adjust (← literal c)
  | .set s => done s
  | .look _ => refuse

/-- The set of all characters from one item to another. -/
def rangeSet : Escape → Escape → Reader CharSet
  | .char a _, .char b _ => do
    let _ ← literal a
    let _ ← literal b
    if a ≤ b then return (← flags).adjust (.interval a.toNat b.toNat) else refuse
  | _, _ => refuse

/-- The text behind blanks, or behind the mark of a comment and the blanks around it, as `glimpse`
looks ahead. -/
def pastMark (s : List Char) : List Char :=
  match s.dropWhile Chars.isBlank with
  | '#' :: r => r.dropWhile Chars.isBlank
  | r => r

/-- The character that counts as the next one where blanks and comments are skipped: of a comment
only the mark is passed over. -/
def glimpse (s : List Char) : Option Char :=
  match pastMark s with
  | [] => s.head?
  | c :: _ => some c

/-- The character that counts as the next one under the flags. -/
def nextUnder (f : Flags) (s : List Char) : Option Char :=
  if f.verbose then glimpse s else s.head?

/-- The set of an item, or of the range of characters that the item begins.  A hyphen before the
closing bracket or another hyphen makes no range. -/
def readRangeFrom (first : Escape) : Reader CharSet := do
  skip
  let here ← remaining
  let next := nextUnder (← flags) (here.drop 1)
  if here.head? != some '-' || next == some ']' || next == some '-' then itemSet first
  else do
    bumpSkip
    rangeSet first (← readItem)

/-- An item or a range of characters. -/
def readRange : Reader CharSet := do
  readRangeFrom (← readItem)

/-- The class whose name a text starts with, closed by `:]`, and the text after it. -/
def classNamed? (negated : Bool) (s : List Char) : Option (CharSet × Bool × List Char) :=
  match s.dropWhile (· != ':') with
  | ':' :: ']' :: rest =>
    (CharSet.ofClassName? (String.ofList (s.takeWhile (· != ':')))).map fun c => (c, negated, rest)
  | _ => none

/-- A class such as `[:alpha:]`: the set and the text after it.  Anything else is none. -/
def classIn? (s : List Char) : Option (CharSet × Bool × List Char) :=
  match s with
  | '[' :: ':' :: r =>
    if r.head? == some '^' then classNamed? true (r.drop 1) else classNamed? false r
  | _ => none

/-- The operations on sets, each written as two characters. -/
inductive SetOp where
  | inter | diff | symmDiff
  deriving DecidableEq, Repr

/-- The set that an operation makes. -/
def SetOp.apply : SetOp → CharSet → CharSet → CharSet
  | inter, a, b => .inter a b
  | diff, a, b => .diff a b
  | symmDiff, a, b => .symmDiff a b

/-- The operation that a text starts with. -/
def setOp? : List Char → Option SetOp
  | '&' :: '&' :: _ => some .inter
  | '-' :: '-' :: _ => some .diff
  | '~' :: '~' :: _ => some .symmDiff
  | _ => none

/-- The operand that waits for the one just read, combined with it by `SetOp.apply`; an operation
is a level. -/
def combine (f : Flags) (waiting : Option (SetOp × Nested CharSet)) (s : Nested CharSet) :
    Nested CharSet :=
  match waiting with
  | some (op, t) => ⟨op.apply (f.adjust t.value) (f.adjust s.value), max t.depth s.depth + 1⟩
  | none => s

/-- One more member of a set that is being read. -/
def Gathered.addSet (g : Gathered CharSet) (s : CharSet) (depth : Nat) : Gathered CharSet :=
  g.add (.union g.value s) depth

/-- The hyphens that stand for themselves at the start of a set. -/
def readHyphens : Nat → Gathered CharSet → Reader (Gathered CharSet)
  | 0, g => done g
  | fuel + 1, g => do
    match ← peek with
    | some '-' => do
      bumpSkip
      readHyphens fuel (g.addSet (.single '-') 0)
    | _ => return g

/-- Pass over the mark of a negated set, if there is one. -/
def readNegation : Reader Bool := do
  if (← peek) == some '^' then do
    bumpSkip
    return true
  else return false

/-- The hyphens or the closing bracket that stand for themselves at the start of a set. -/
def readLeading : Reader (Gathered CharSet) := do
  let hyphens ← readHyphens (← remaining).length (.start .none)
  -- a bracket stands for itself only where nothing else has stood
  if (← peek) == some ']' && hyphens.count == 0 then do
    bumpSkip
    return hyphens.addSet (.single ']') 0
  else return hyphens

/-- The start of a set after its opening bracket: whether it is negated, and what stands for itself
there. -/
def readSetStart : Reader (Bool × Gathered CharSet) := do
  let negated ← readNegation
  return (negated, ← readLeading)

/-- The rest of a bracketed set: `waiting` is the left operand of the last `SetOp`, `g` what has
been read after it, `negated` whether the complement is meant. -/
def readSetRest (fuel : Nat) (negated : Bool) (waiting : Option (SetOp × Nested CharSet))
    (g : Gathered CharSet) : Reader (Nested CharSet) :=
  match fuel with
  | 0 => refuse
  | fuel + 1 => do
    skip
    let here ← remaining
    match setOp? here with
    | some op => do
      goTo (here.drop 2)
      -- operations have one rank and are taken from left to right
      readSetRest fuel negated (some (op, combine (← flags) waiting g.whole)) (.start .none)
    | none =>
      match here.head? with
      | none => refuse
      | some ']' => do
        bump
        let s := combine (← flags) waiting g.whole
        return ⟨← complementIf negated ((← flags).adjust s.value), s.depth + 1⟩
      | some '[' =>
        match classIn? here with
        | some (c, opposite, rest) => do
          goTo rest
          let c ← complementIf opposite ((← flags).adjust c)
          readSetRest fuel negated waiting (g.addSet c 0)
        -- a bracket that opens no named class opens a set inside this one
        | none => do
          bumpSkip
          let (inverted, start) ← readSetStart
          let inner ← readSetRest fuel inverted none start
          readSetRest fuel negated waiting (g.addSet inner.value inner.depth)
      | some _ => do
        let c ← readRange
        readSetRest fuel negated waiting (g.addSet c 0)

/-- A bracketed set, from its opening bracket on. -/
def readSet (fuel : Nat) : Reader (Nested CharSet) := do
  expect '['
  skip
  let (negated, start) ← readSetStart
  readSetRest fuel negated none start

/-! ## Repetitions -/

/-- Pass over blanks, whatever the flags say. -/
def passBlanks : Reader Unit := fun r =>
  some ((), { r with rest := r.rest.dropWhile Chars.isBlank })

/-- The digits of a count, with what is skipped between them left out. -/
def readDigits : Nat → Reader (List Char)
  | 0 => done []
  | fuel + 1 => do
    match ← peek with
    | some c =>
      if Chars.isDigit c then do
        bumpSkip
        return c :: (← readDigits fuel)
      else return []
    | none => return []

/-- The count with some digits, the blanks after them passed. -/
def countOf (digits : List Char) : Reader Nat := do
  passBlanks
  skip
  -- counts have 32 bits
  if digits.isEmpty || 0xFFFFFFFF < Chars.ofDigits digits then refuse
  else return Chars.ofDigits digits

/-- A number in the braces of a repetition, blanks around it ignored. -/
def readCount : Reader Nat := do
  passBlanks
  countOf (← readDigits ((← remaining).length + 1))

/-- The greatest count and the closing brace. -/
def readMost (least : Nat) : Reader (Nat × Option Nat) := do
  let most ← readCount
  expect '}'
  if most < least then refuse else return (least, some most)

/-- The end of the bounds in braces after the least count. -/
def readUpper (least : Nat) : Reader (Nat × Option Nat) := do
  match ← peek with
  | some ',' => do
    bumpSkip
    if (← peek) == some '}' then do
      bump
      return (least, none)
    else readMost least
  | _ => do
    expect '}'
    return (least, some least)

/-- The bounds in braces, the opening one passed: the least and the greatest count. -/
def readBounds : Reader (Nat × Option Nat) := do
  skip
  readUpper (← readCount)

/-- Pass over the mark of a reluctant repetition. -/
def passReluctance : Reader Unit := do
  if (← peek) == some '?' then bump

/-! ## Patterns -/

/-- An item of a sequence; a flag setting is one without a pattern. -/
abbrev Item := Nested (Option Pattern)

/-- The pattern of items that were read last to first; a flag setting leaves nothing. -/
def patternOf (items : List Item) : Pattern :=
  match items.filterMap (·.value) with
  | [] => .empty
  | p :: r => r.foldl (fun after before => .seq before after) p

/-- The sequence of items that were read last to first.  A flag setting counts as one of them. -/
def sequence (items : List Item) : Nested Pattern :=
  Gathered.whole ⟨patternOf items, items.length, items.foldl (fun n i => max n i.depth) 0⟩

/-- The pattern of an escape outside brackets.  Without `u` a character beyond ASCII stands for
itself in one case only, and a byte beyond ASCII for nothing. -/
def escapePattern : Escape → Reader Pattern
  | .char c byte => do
    let f ← flags
    if f.unicode || c.toNat < 128 then return .chars (f.adjust (.single c))
    else if byte then refuse
    else return .chars (.single c)
  | .set s => done (.chars s)
  | .look l => done (.look l)

/-- One character or escape outside brackets. -/
def readPrimitive : Reader Pattern := do
  let f ← flags
  match ← peek with
  | none => refuse
  | some '\\' => do
    bump
    escapePattern (← readEscape)
  | some '.' => do
    bump
    if !f.unicode then refuse
    else if f.dotAll then return .chars .all
    else if f.returns then return .chars (.complement (.union (.single '\n') (.single '\r')))
    else return .chars (.complement (.single '\n'))
  | some '^' => do
    bump
    return .look (if f.multiLine then .lineStart f.returns else .textStart)
  | some '$' => do
    bump
    return .look (if f.multiLine then .lineEnd f.returns else .textEnd)
  | some c => do
    bump
    escapePattern (.char c false)

/-- A character that may stand in the name of a group. -/
def isNameChar (first : Bool) (c : Char) : Bool :=
  c == '_' || Characters.isAlphabetic c
    || (!first && (c == '.' || c == '[' || c == ']' || Characters.isNumeric c))

/-- A text that may be the name of a group. -/
def isGroupName : List Char → Bool
  | [] => false
  | c :: cs => isNameChar true c && cs.all (isNameChar false)

/-- The name of a group, which is new, and the closing mark after it. -/
def readGroupName : Reader Unit := fun r =>
  let name := r.rest.takeWhile (· != '>')
  let closed := r.rest.dropWhile (· != '>')
  if !closed.isEmpty && isGroupName name && !r.names.contains name then
    some ((), { r with names := name :: r.names, rest := closed.drop 1 })
  else none

/-- What opens a group: a group with the flags that hold in it, or flags for the rest of the group
around. -/
inductive Opening where
  | group (inside : Flags)
  | setting (flags : Flags)

/-- The text after the mark of a named group, if a text starts with that mark. -/
def afterNameMark? : List Char → Option (List Char)
  | 'P' :: '<' :: r => some r
  | '<' :: r => some r
  | _ => none

/-- The flag letters that a text starts with, up to a colon or a closing parenthesis. -/
def readFlagLetters (f : Flags) (here : List Char) : Reader Opening :=
  let letters := here.takeWhile fun c => c != ':' && c != ')'
  let closed := here.dropWhile fun c => c != ':' && c != ')'
  match f.change? true [] letters, closed.head? with
  | some g, some ':' => do
    goTo (closed.drop 1)
    return .group g
  | some g, some ')' => do
    goTo (closed.drop 1)
    -- a question mark alone sets no flag
    if letters.isEmpty then refuse else return .setting g
  | _, _ => refuse

/-- The opening of a group, its parenthesis passed. -/
def readOpening : Reader Opening := do
  skip
  let f ← flags
  let here ← remaining
  if here.head? == some '?' then
    match afterNameMark? (here.drop 1) with
    | some r => do
      goTo r
      readGroupName
      return .group f
    | none => readFlagLetters f (here.drop 1)
  else return .group f

/-- The least and the greatest count of a repetition, its mark `c` passed. -/
def readTimes (c : Char) : Reader (Nat × Option Nat) :=
  match c with
  | '?' => done (0, some 1)
  | '*' => done (0, none)
  | '+' => done (1, none)
  | _ => do
    let bounds ← readBounds
    skip
    return bounds

/-- A repetition of the item read last. -/
def readRepetition (items : List Item) (c : Char) : Reader (List Item) := do
  match items with
  | ⟨some p, depth⟩ :: before => do
    bump
    let (least, most) ← readTimes c
    -- how many it tries first makes no difference to whether a text matches
    passReluctance
    return ⟨some (.repeated p least most), depth + 1⟩ :: before
  | _ => refuse

/-- What is read after the `Opening` of a group: flags that are set from here on, or the body of a
group, which is read under its own flags up to the closing parenthesis. -/
def readOpened (body : Reader (Gathered Pattern)) : Opening → Reader Item
  | .setting f => do
    setFlags f
    return ⟨none, 0⟩
  | .group inside => do
    -- flags that are set inside a group end with it
    let outside ← flags
    setFlags inside
    let p ← body
    expect ')'
    setFlags outside
    return ⟨some p.value, p.whole.depth + 1⟩

mutual
/-- The alternatives up to the end of the group. -/
def readAlternatives (fuel : Nat) : Reader (Gathered Pattern) :=
  match fuel with
  | 0 => refuse
  | fuel + 1 => do
    let p ← readSequence fuel []
    match ← peek with
    | some '|' => do
      bump
      let others ← readAlternatives fuel
      return others.add (.alt p.value others.value) p.depth
    | _ => return (Gathered.start .empty).add p.value p.depth

/-- One alternative; `items` is what has been read of it, last to first. -/
def readSequence (fuel : Nat) (items : List Item) : Reader (Nested Pattern) :=
  match fuel with
  | 0 => refuse
  | fuel + 1 => do
    skip
    match ← peek with
    | none => return sequence items
    | some '|' => return sequence items
    | some ')' => return sequence items
    | some '(' => do
      let item ← readGroup fuel
      readSequence fuel (item :: items)
    | some '[' => do
      let set ← readSet fuel
      readSequence fuel (⟨some (.chars set.value), set.depth⟩ :: items)
    | some c =>
      if c = '?' || c = '*' || c = '+' || c = '{' then do
        let items ← readRepetition items c
        readSequence fuel items
      else do
        let p ← readPrimitive
        readSequence fuel (⟨some p, 0⟩ :: items)

/-- A group, or a flag setting, which holds no pattern. -/
def readGroup (fuel : Nat) : Reader Item :=
  match fuel with
  | 0 => refuse
  | fuel + 1 => do
    bump
    readOpened (readAlternatives fuel) (← readOpening)
end

/-! ## Whole texts -/

/-- The levels that may stand in each other in what `written?` accepts. -/
def nestLimit : Nat := 250

/-- The pattern that a text is written for, with its levels: `readAlternatives` over the whole of
it, within `nestLimit`. -/
def written? (text : List Char) : Option (Nested Pattern) :=
  -- no character takes more than three calls, so the fuel is enough for any text
  match readAlternatives (3 * text.length + 3) ⟨.initial, [], text⟩ with
  -- what is left begins with a closing parenthesis that closes nothing
  | some (p, r) => if r.rest.isEmpty && p.whole.depth ≤ nestLimit then some p.whole else none
  | none => none

/-- The pattern that a text denotes: the one it is `written?` for, if the program of it `fits` the
engine. -/
def ofChars? (text : List Char) : Option Pattern :=
  match written? text with
  | some p => if Engine.fits text p.value then some p.value else none
  | none => none

/-- The text with an anchor at each end, in a group of its own between them.  It is put together
as text, so that a parenthesis in it can close that group. -/
def enclosedText (text : List Char) : List Char := "^(?:".toList ++ text ++ ")$".toList

/-- The pattern that a text denotes when it has to match from one end of a text to the other: what
`ofChars?` makes of the `enclosedText`. -/
def ofWholeChars? (text : List Char) : Option Pattern :=
  -- the text is put in as it is, so a parenthesis too many in it closes the one put before it
  ofChars? (enclosedText text)

end RestCase.Pattern
