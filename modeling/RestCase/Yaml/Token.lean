/-
# RestCase.Yaml.Token — tokens

The tokens of a YAML text (`Yaml.tokens?`).  Indentation is turned into tokens that open and close
block collections, and the key of a mapping gets its token once the colon after it is seen: until
then the place of the key is remembered, one for each level of brackets (`Yaml.KeyPlace`).
-/
import RestCase.Yaml.Scalar

namespace RestCase.Yaml

/-- A token. -/
inductive Token where
  | version (major minor : Nat)
  | tagHandle (handle head : String)
  | documentStart | documentEnd
  | sequenceStart | mappingStart | blockEnd
  | openSequence | closeSequence | openMapping | closeMapping
  | item | separator | key | value
  | alias (name : String)
  | anchor (name : String)
  | tag (handle suffix : String)
  | scalar (text : String) (plain : Bool)
  | streamEnd
  deriving DecidableEq, Repr

/-- A place at which a key may have begun. -/
structure KeyPlace where
  required : Bool
  number : Nat
  index : Nat
  line : Nat
  column : Nat

/-- The state of scanning: the cursor, the indentations, the places of possible keys (of this
level of brackets and of those around it), and the tokens so far, last one first.  `Scan.next`
takes it on by a token. -/
structure Scan where
  cursor : Cursor
  indent : Int
  indents : List Int
  keyAllowed : Bool
  keyPlace : Option KeyPlace
  outerPlaces : List (Option KeyPlace)
  tokens : List Token

namespace Scan

/-- The state before the first token. -/
def start (text : List Char) : Scan := ⟨.start text, -1, [], true, none, [], []⟩

/-- The scan is inside brackets. -/
def inFlow (s : Scan) : Bool := !s.outerPlaces.isEmpty

/-- One more token. -/
def emit (s : Scan) (t : Token) : Scan := { s with tokens := t :: s.tokens }

/-- A token put before those from a place on. -/
def emitAt (s : Scan) (number : Nat) (t : Token) : Scan :=
  -- the last token comes first, so those from the place on are the first of the list
  let later := s.tokens.take (s.tokens.length - number)
  { s with tokens := later ++ t :: s.tokens.drop (s.tokens.length - number) }

/-- The scan with its cursor elsewhere. -/
def moveTo (s : Scan) (c : Cursor) : Scan := { s with cursor := c }

/-! ## Keys -/

/-- A place at which no key can begin any more is dropped; a key that was required there is
missed. -/
def freshPlace (c : Cursor) (p : Option KeyPlace) : Option (Option KeyPlace) :=
  match p with
  | none => some none
  | some k =>
    -- a key stands on one line, and its colon comes within so many characters
    if k.line < c.line ∨ k.index + 1024 < c.index then
      if k.required then none else some none
    else some (some k)

/-- Drop the places that lie behind. -/
def dropStale (s : Scan) : Option Scan := do
  let here ← freshPlace s.cursor s.keyPlace
  let outer ← s.outerPlaces.mapM (freshPlace s.cursor)
  return { s with keyPlace := here, outerPlaces := outer }

/-- Give up the place of a key on this level; a required key is missed. -/
def dropKey (s : Scan) : Option Scan :=
  match s.keyPlace with
  | some k => if k.required then none else some { s with keyPlace := none }
  | none => some s

/-- Remember that a key may begin here. -/
def saveKey (s : Scan) : Option Scan :=
  if s.keyAllowed then
    s.dropKey.map fun s =>
      -- at the indentation of a block mapping nothing but a key can begin
      let required := !s.inFlow && s.indent == (s.cursor.column : Int)
      let place : KeyPlace :=
        ⟨required, s.tokens.length, s.cursor.index, s.cursor.line, s.cursor.column⟩
      { s with keyPlace := some place }
  else some s

/-! ## Indentation -/

/-- Open a block collection at a column that lies further in; its token comes before those from a
place on. -/
def indentTo (s : Scan) (column number : Nat) (t : Token) : Scan :=
  if !s.inFlow && s.indent < (column : Int) then
    { s with indent := column, indents := s.indent :: s.indents }.emitAt number t
  else s

/-- Close every block collection that lies further in than a column. -/
def closeBlocks (column : Int) : Int → List Int → List Token → Int × List Int × List Token
  | indent, [], tokens => (indent, [], tokens)
  | indent, outer :: r, tokens =>
    if column < indent then closeBlocks column outer r (.blockEnd :: tokens)
    else (indent, outer :: r, tokens)

/-- Close the block collections that a column ends; inside brackets it ends none. -/
def dedentTo (s : Scan) (column : Int) : Scan :=
  if s.inFlow then s
  else
    let (indent, indents, tokens) := closeBlocks column s.indent s.indents s.tokens
    { s with indent := indent, indents := indents, tokens := tokens }

/-! ## The space before a token -/

/-- Skip gaps, comments and ends of lines; after the end of a line a key is allowed outside
brackets. -/
def toNextToken : Nat → Scan → Scan
  | 0, s => s
  | fuel + 1, s =>
    let c := s.cursor
    let c := if c.index = 0 ∧ c.sees '\uFEFF' = true then c.step else c
    -- where a key may begin, a tab would count as indentation
    let c := c.skipWhile fun x => x == ' ' || (x == '\t' && (s.inFlow || !s.keyAllowed))
    let c := if c.sees '#' then c.skipWhile fun x => !isBreak x else c
    if c.rest.head?.any isBreak then
      toNextToken fuel { s with cursor := c.stepLine, keyAllowed := s.keyAllowed || !s.inFlow }
    else s.moveTo c

/-! ## Marks -/

/-- A token without text, `n` characters long. -/
def mark (s : Scan) (n : Nat) (t : Token) : Scan := (s.moveTo (s.cursor.steps n)).emit t

/-- The start or end of a document. -/
def documentMark (s : Scan) (t : Token) : Option Scan := do
  let s ← (s.dedentTo (-1)).dropKey
  return { s with keyAllowed := false }.mark 3 t

/-- An opening bracket. -/
def openFlow (s : Scan) (t : Token) : Option Scan := do
  let s ← s.saveKey
  return { s with
    keyAllowed := true, keyPlace := none, outerPlaces := s.keyPlace :: s.outerPlaces }.mark 1 t

/-- A closing bracket. -/
def closeFlow (s : Scan) (t : Token) : Option Scan := do
  let s ← s.dropKey
  let s := match s.outerPlaces with
    | p :: r => { s with keyPlace := p, outerPlaces := r }
    | [] => s
  return { s with keyAllowed := false }.mark 1 t

/-- A comma inside brackets. -/
def separate (s : Scan) : Option Scan := do
  let s ← s.dropKey
  return { s with keyAllowed := true }.mark 1 .separator

/-- The mark of an item. -/
def enterItem (s : Scan) : Option Scan := do
  if !s.inFlow && !s.keyAllowed then none
  else
    let s ← (s.indentTo s.cursor.column s.tokens.length .sequenceStart).dropKey
    return { s with keyAllowed := true }.mark 1 .item

/-- The mark of a key. -/
def enterKey (s : Scan) : Option Scan := do
  if !s.inFlow && !s.keyAllowed then none
  else
    let s ← (s.indentTo s.cursor.column s.tokens.length .mappingStart).dropKey
    return { s with keyAllowed := !s.inFlow }.mark 1 .key

/-- The mark of a value: what began at the place of a key was one. -/
def enterValue (s : Scan) : Option Scan :=
  match s.keyPlace with
  | some k =>
    -- what was read since the place was remembered is the key
    let s := (s.emitAt k.number .key).indentTo k.column k.number .mappingStart
    some ({ s with keyPlace := none, keyAllowed := false }.mark 1 .value)
  | none =>
    if !s.inFlow && !s.keyAllowed then none
    else
      let s := s.indentTo s.cursor.column s.tokens.length .mappingStart
      some ({ s with keyAllowed := !s.inFlow }.mark 1 .value)

/-! ## Anchors and tags -/

/-- The name of an anchor or an alias, its mark passed. -/
def readName (c : Cursor) : Option (String × Cursor) :=
  let (name, c) := c.takeWhile isNameChar
  if name.isEmpty then none
  else if endsWord c.rest || "?:,]\x7d%@\x60".toList.any fun x => c.sees x then
    some (String.ofList name, c)
  else none

/-- An anchor or an alias. -/
def reference (s : Scan) (t : String → Token) : Option Scan := do
  let s ← s.saveKey
  let (name, c) ← readName s.cursor.step
  return ({ s with keyAllowed := false }.moveTo c).emit (t name)

/-- A character of a tag; brackets and commas only where they are allowed. -/
def isTagChar (brackets : Bool) (c : Char) : Bool :=
  isNameChar c || ";/?:@&=+$.%!~*'()".toList.contains c
    || (brackets && (c == ',' || c == '[' || c == ']'))

/-- The byte that two hexadecimal digits after a percent sign denote. -/
def percentByte? : List Char → Option (UInt8 × List Char)
  | '%' :: a :: b :: r =>
    if Chars.isHexDigit a && Chars.isHexDigit b then
      some (UInt8.ofNat (Chars.hexValue a * 16 + Chars.hexValue b), r)
    else none
  | _ => none

/-- The bytes of a run of percent escapes. -/
def percentBytes : Nat → List Char → List UInt8 × List Char
  | 0, s => ([], s)
  | n + 1, s =>
    match percentByte? s with
    | some (b, r) =>
      let more := percentBytes n r
      (b :: more.1, more.2)
    | none => ([], s)

/-- The number of bytes of a character whose first byte is given. -/
def encodedLength (b : UInt8) : Nat :=
  if b < 0x80 then 1 else if b < 0xC0 then 0 else if b < 0xE0 then 2
  else if b < 0xF0 then 3 else if b < 0xF8 then 4 else 0

/-- The text with its percent escapes read. -/
def unescape : Nat → List Char → Option (List Char)
  | 0, _ => some []
  | _, [] => some []
  | fuel + 1, '%' :: r =>
    match percentByte? ('%' :: r) with
    | none => none
    | some (b, _) =>
      let n := encodedLength b
      let (bytes, rest) := percentBytes n ('%' :: r)
      if n = 0 ∨ bytes.length ≠ n then none
      else
        (String.fromUTF8? ⟨bytes.toArray⟩).bind fun s =>
          (unescape fuel rest).map fun t => s.toList ++ t
  | fuel + 1, c :: r => (unescape fuel r).map (c :: ·)

/-- The text of a tag; `head` is what was read before as if it were a handle. -/
def readTagText (brackets : Bool) (head : List Char) (c : Cursor) : Option (String × Cursor) :=
  let (text, c) := c.takeWhile (isTagChar brackets)
  if head.length + text.length = 0 then none
  else (unescape text.length text).map fun t => (String.ofList (head.drop 1 ++ t), c)

/-- A handle of tags: a mark, or a name between two marks.  The last part of the answer tells
whether there are two. -/
def readHandle (c : Cursor) : Option (List Char × Cursor × Bool) :=
  if c.sees '!' then
    let (name, c) := c.step.takeWhile isNameChar
    if c.sees '!' then some ('!' :: (name ++ ['!']), c.step, true)
    else some ('!' :: name, c, false)
  else none

/-- A tag: handle and suffix. -/
def readTag (c : Cursor) : Option (String × String × Cursor) := do
  let (handle, suffix, c) ←
    if c.rest[1]? == some '<' then do
      let (suffix, c) ← readTagText true [] (c.steps 2)
      if c.sees '>' then some ("", suffix, c.step) else none
    else do
      let (handle, c, both) ← readHandle c
      if both then do
        let (suffix, c) ← readTagText false [] c
        some (String.ofList handle, suffix, c)
      else do
        let (suffix, c) ← readTagText false handle c
        -- what was read as a handle is a suffix if no second mark follows it
        if suffix.isEmpty then some ("", "!", c) else some ("!", suffix, c)
  return (handle, suffix, c)

/-- A tag and the end of the word after it. -/
def tagged (s : Scan) : Option Scan := do
  let s ← s.saveKey
  let (handle, suffix, c) ← readTag s.cursor
  if endsWord c.rest || (s.inFlow && c.sees ',') then
    return ({ s with keyAllowed := false }.moveTo c).emit (.tag handle suffix)
  else none

/-! ## Scalars -/

/-- A block scalar. -/
def block (s : Scan) (literal : Bool) : Option Scan := do
  let s ← s.dropKey
  let (text, c) ← readBlock literal s.indent s.cursor.step
  return ({ s with keyAllowed := true }.moveTo c).emit (.scalar text false)

/-- A quoted scalar. -/
def quoted (s : Scan) (single : Bool) : Option Scan := do
  let s ← s.saveKey
  let (text, c) ← readQuoted single s.cursor.step
  return ({ s with keyAllowed := false }.moveTo c).emit (.scalar text false)

/-- A plain scalar. -/
def plain (s : Scan) : Option Scan := do
  let s ← s.saveKey
  let (text, c, lineEnded) ← readPlain s.inFlow (s.indent + 1) s.cursor
  return ({ s with keyAllowed := lineEnded }.moveTo c).emit (.scalar text true)

/-- Whether a plain scalar can begin here. -/
def startsPlain (s : Scan) : Bool :=
  match s.cursor.rest with
  | [] => false
  | x :: r =>
    !(isGap x || isBreak x || "-?:,[]\x7b\x7d#&*!|>'\"%@\x60".toList.contains x)
      -- these begin a plain scalar if they are not marks of their own
      || (x == '-' && !(r.head?.any isGap))
      || (!s.inFlow && (x == '?' || x == ':') && !endsWord r)

/-! ## Directives -/

/-- A number of a version: one to nine digits. -/
def readVersionPart (c : Cursor) : Option (Nat × Cursor) :=
  let (digits, c) := c.takeWhile Chars.isDigit
  if digits.isEmpty || 9 < digits.length then none else some (Chars.ofDigits digits, c)

/-- What a directive says after its name. -/
def readDirective (name : List Char) (c : Cursor) : Option (Token × Cursor) :=
  if name = "YAML".toList then do
    let (major, c) ← readVersionPart (c.skipWhile isGap)
    if !c.sees '.' then none
    else
      let (minor, c) ← readVersionPart c.step
      return (.version major minor, c)
  else if name = "TAG".toList then do
    let (handle, c, both) ← readHandle (c.skipWhile isGap)
    if (!both && handle ≠ ['!']) || !(c.rest.head?.any isGap) then none
    else
      let (head, c) ← readTagText true [] (c.skipWhile isGap)
      if endsWord c.rest then return (.tagHandle (String.ofList handle) head, c) else none
  else none

/-- A directive, up to the end of its line. -/
def directive (s : Scan) : Option Scan := do
  let s ← (s.dedentTo (-1)).dropKey
  let (name, c) := s.cursor.step.takeWhile isNameChar
  if name.isEmpty || !endsWord c.rest then none
  else
    let (t, c) ← readDirective name c
    let c := c.skipWhile isGap
    let c := if c.sees '#' then c.skipWhile fun x => !isBreak x else c
    if endsLine c.rest then
      return ({ s with keyAllowed := false }.moveTo c.stepLine).emit t
    else none

/-! ## The scanner -/

/-- The end of the text. -/
def finish (s : Scan) : Option Scan := do
  let s ← (s.dedentTo (-1)).dropKey
  return s.emit .streamEnd

/-- The next token. -/
def next (s : Scan) : Option Scan :=
  let c := s.cursor
  match c.rest with
  | [] => none
  | x :: r =>
    if c.column = 0 ∧ x = '%' then s.directive
    else if c.column = 0 ∧ isDocumentMark '-' c.rest = true then s.documentMark .documentStart
    else if c.column = 0 ∧ isDocumentMark '.' c.rest = true then s.documentMark .documentEnd
    else if x = '[' then s.openFlow .openSequence
    else if x = '\x7b' then s.openFlow .openMapping
    else if x = ']' then s.closeFlow .closeSequence
    else if x = '\x7d' then s.closeFlow .closeMapping
    else if x = ',' then s.separate
    else if x = '-' ∧ endsWord r = true then s.enterItem
    else if x = '?' ∧ (s.inFlow || endsWord r) = true then s.enterKey
    else if x = ':' ∧ (s.inFlow || endsWord r) = true then s.enterValue
    else if x = '*' then s.reference .alias
    else if x = '&' then s.reference .anchor
    else if x = '!' then s.tagged
    else if x = '|' ∧ s.inFlow = false then s.block true
    else if x = '>' ∧ s.inFlow = false then s.block false
    else if x = '\'' then s.quoted true
    else if x = '"' then s.quoted false
    else if s.startsPlain then s.plain
    else none

/-- Scan to the end of the text. -/
def run : Nat → Scan → Option Scan
  | 0, _ => none
  | fuel + 1, s => do
    -- every token but the last one takes a character, so there are no more steps than that
    let s ← (s.toNextToken (s.cursor.rest.length + 1)).dropStale
    let s := s.dedentTo s.cursor.column
    if s.cursor.rest.isEmpty then s.finish
    else run fuel (← s.next)

end Scan

/-- The tokens of a text. -/
def tokens? (text : String) : Option (List Token) :=
  let chars := text.toList
  if chars.all isAllowed then
    (Scan.run (chars.length + 2) (Scan.start chars)).map fun s => s.tokens.reverse
  else none

end RestCase.Yaml
