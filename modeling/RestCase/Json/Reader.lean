/-
# RestCase.Json.Reader — reading a JSON text

The reader accepts exactly one JSON value with blanks around it, nested at most `Json.maxDepth`
levels deep, and otherwise says what is wrong and where (`Json.SyntaxFault`).  The place is the line
and the column, counted in bytes, of the last byte that was looked at.

`Json.readDocument` keeps the order of the members; `Json.parse` gives the value in normal form.

Recursion is on a fuel argument that the length of the text bounds; `Json.readDocument` shows none.
-/
import RestCase.Json.Number

namespace RestCase.Json

/-! ## What can be wrong -/

/-- Why a text is not JSON. -/
inductive Fault where
  | eofInList
  | eofInObject
  | eofInString
  | eofInValue
  | expectedColon
  | expectedListCommaOrEnd
  | expectedObjectCommaOrEnd
  | expectedWord
  | expectedValue
  | invalidEscape
  | invalidNumber
  | numberOutOfRange
  | controlCharacter
  | keyMustBeString
  | loneSurrogate
  | trailingComma
  | trailingCharacters
  | endOfEscape
  | tooDeep
  deriving DecidableEq, Repr

/-- The words for a fault. -/
def Fault.message : Fault → String
  | eofInList => "EOF while parsing a list"
  | eofInObject => "EOF while parsing an object"
  | eofInString => "EOF while parsing a string"
  | eofInValue => "EOF while parsing a value"
  | expectedColon => "expected `:`"
  | expectedListCommaOrEnd => "expected `,` or `]`"
  | expectedObjectCommaOrEnd => "expected `,` or `\x7d`"
  | expectedWord => "expected ident"
  | expectedValue => "expected value"
  | invalidEscape => "invalid escape"
  | invalidNumber => "invalid number"
  | numberOutOfRange => "number out of range"
  | controlCharacter => "control character (\\u0000-\\u001F) found while parsing a string"
  | keyMustBeString => "key must be a string"
  | loneSurrogate => "lone leading surrogate in hex escape"
  | trailingComma => "trailing comma"
  | trailingCharacters => "trailing characters"
  | endOfEscape => "unexpected end of hex escape"
  | tooDeep => "recursion limit exceeded"

/-- A fault, the text that was left, and how many bytes of that had been looked at. -/
structure Stop where
  fault : Fault
  rest : List Char
  ahead : Nat

/-- The outcome of reading a part: what was read and the text that is left. -/
abbrev Outcome (α : Type) := Except Stop (α × List Char)

/-- A fault at the end of what was read. -/
def stopAt {α : Type} (fault : Fault) (rest : List Char) : Outcome α := .error ⟨fault, rest, 0⟩

/-- A fault at the next byte, if there is one. -/
def stopOn {α : Type} (fault : Fault) (rest : List Char) : Outcome α :=
  .error ⟨fault, rest, if rest.isEmpty then 0 else 1⟩

/-! ## Blanks and words -/

/-- The blanks of JSON. -/
def isGap (c : Char) : Bool := c == ' ' || c == '\n' || c == '\t' || c == '\r'

/-- The text without leading blanks. -/
def skipGaps (s : List Char) : List Char := s.dropWhile isGap

/-- The rest of a word whose first letter was recognized. -/
def readWord (v : Json) : List Char → List Char → Outcome Json
  | [], s => .ok (v, s)
  | _ :: _, [] => stopAt .eofInValue []
  | w :: ws, c :: r => if w = c then readWord v ws r else stopOn .expectedWord (c :: r)

/-! ## Numbers -/

/-- The digits of an exponent: whether they stay below `2 ^ 31`, their value or, if not, the text
after the digit that goes beyond. -/
def exponentValue (acc : Nat) : List Char → Nat ⊕ List Char
  | [] => .inl acc
  | c :: r =>
    let next := acc * 10 + Chars.digitValue c
    if 0x80000000 ≤ next then .inr r else exponentValue next r

/-- A number, once its value is known to be in range or not. -/
def finishNumber (value : Option Finite64) (rest : List Char) : Outcome Json :=
  match value with
  | some x => .ok (float x, rest)
  | none => stopAt .numberOutOfRange rest

/-- The exponent after its letter. -/
def readExponent (negative : Bool) (significand : Nat) (start : Int) (s : List Char) :
    Outcome Json :=
  let (down, s) := match s with
    | '-' :: r => (true, r)
    | '+' :: r => (false, r)
    | r => (false, r)
  let (ds, rest) := Chars.takeDigits s
  if ds.isEmpty then
    stopOn (if s.isEmpty then .eofInValue else .invalidNumber) s
  else match exponentValue 0 ds with
    | .inl e =>
      finishNumber (scaled? negative significand (if down then start - e else start + e)) rest
    | .inr tail =>
      -- an exponent beyond all bounds makes anything but zero too large, or else zero
      if significand ≠ 0 ∧ !down then stopAt .numberOutOfRange (tail ++ rest)
      else finishNumber (Finite64.ofRatio? negative 0 1) rest

/-- What follows the whole part of a number. -/
def readNumberTail (negative : Bool) (whole : List Char) (s : List Char) : Outcome Json :=
  let (significand, dropped) := wholePart 0 whole
  match s with
  | '.' :: r =>
    let (ds, rest) := Chars.takeDigits r
    if ds.isEmpty then stopOn (if r.isEmpty then .eofInValue else .invalidNumber) r
    else
      let (significand, used) := fractionPart significand ds
      let exponent : Int := (dropped : Int) - used
      match rest with
      | 'e' :: r => readExponent negative significand exponent r
      | 'E' :: r => readExponent negative significand exponent r
      | _ => finishNumber (scaled? negative significand exponent) rest
  | 'e' :: r => readExponent negative significand dropped r
  | 'E' :: r => readExponent negative significand dropped r
  | _ =>
    match ofWhole? negative whole with
    | some v => .ok (v, s)
    | none => stopAt .numberOutOfRange s

/-- A number after its sign. -/
def readNumber (negative : Bool) (s : List Char) : Outcome Json :=
  match s with
  | [] => stopAt .eofInValue []
  -- no digit follows a zero in front
  | '0' :: r =>
    if (r.head?.map Chars.isDigit).getD false then stopOn .invalidNumber r
    else readNumberTail negative ['0'] r
  | _ =>
    let (ds, rest) := Chars.takeDigits s
    if ds.isEmpty then stopOn .invalidNumber s else readNumberTail negative ds rest

/-! ## Strings -/

/-- Four hexadecimal digits. -/
def readHex (s : List Char) : Outcome Nat :=
  -- four bytes are looked at together, whatever characters they belong to
  if Chars.utf8Size s < 4 then stopAt .eofInString []
  else match s with
    | a :: b :: c :: d :: r =>
      if [a, b, c, d].all Chars.isHexDigit then
        .ok (((Chars.hexValue a * 16 + Chars.hexValue b) * 16 + Chars.hexValue c) * 16
          + Chars.hexValue d, r)
      else .error ⟨.invalidEscape, s, 4⟩
    | _ => .error ⟨.invalidEscape, s, 4⟩

/-- The second half of a pair of surrogates, the first being `high`. -/
def readLowSurrogate (high : Nat) : List Char → Outcome Char
  | [] => stopAt .eofInString []
  | '\\' :: [] => stopAt .eofInString []
  | '\\' :: 'u' :: r =>
    match readHex r with
    | .error e => .error e
    | .ok (low, r) =>
      if 0xDC00 ≤ low ∧ low ≤ 0xDFFF then
        .ok (Char.ofNat ((high - 0xD800) * 0x400 + (low - 0xDC00) + 0x10000), r)
      else stopAt .loneSurrogate r
  | '\\' :: c :: r => stopOn .endOfEscape (c :: r)
  | c :: r => stopOn .endOfEscape (c :: r)

/-- An escape after its backslash. -/
def readEscape : List Char → Outcome Char
  | [] => stopAt .eofInString []
  | '"' :: r => .ok ('"', r)
  | '\\' :: r => .ok ('\\', r)
  | '/' :: r => .ok ('/', r)
  | 'b' :: r => .ok ('\x08', r)
  | 'f' :: r => .ok ('\x0C', r)
  | 'n' :: r => .ok ('\n', r)
  | 'r' :: r => .ok ('\r', r)
  | 't' :: r => .ok ('\t', r)
  | 'u' :: r =>
    match readHex r with
    | .error e => .error e
    | .ok (n, r) =>
      -- the second half of a pair does not stand alone
      if 0xDC00 ≤ n ∧ n ≤ 0xDFFF then stopAt .loneSurrogate r
      else if 0xD800 ≤ n ∧ n ≤ 0xDBFF then readLowSurrogate n r
      else .ok (Char.ofNat n, r)
  | c :: r => stopOn .invalidEscape (c :: r)

/-- The characters of a string after its opening quote, and the text after its closing quote. -/
def readChars : Nat → List Char → Outcome (List Char)
  | 0, s => stopAt .eofInString s
  | _ + 1, [] => stopAt .eofInString []
  | fuel + 1, c :: r =>
    if c = '"' then .ok ([], r)
    else if c = '\\' then
      match readEscape r with
      | .error e => .error e
      | .ok (x, r) =>
        match readChars fuel r with
        | .error e => .error e
        | .ok (xs, r) => .ok (x :: xs, r)
    else if c.toNat < 0x20 then stopOn .controlCharacter (c :: r)
    else
      match readChars fuel r with
      | .error e => .error e
      | .ok (xs, r) => .ok (c :: xs, r)

/-- A string after its opening quote. -/
def readString (s : List Char) : Outcome String :=
  match readChars (s.length + 1) s with
  | .error e => .error e
  | .ok (xs, r) => .ok (String.ofList xs, r)

/-! ## Values -/

mutual
/-- A value, with blanks in front of it.  Arrays and objects take one of the levels that
`maxDepth` grants. -/
def readValue (fuel depth : Nat) (s : List Char) : Outcome Json :=
  match fuel with
  | 0 => stopAt .eofInValue s
  | fuel + 1 =>
    match skipGaps s with
    | [] => stopAt .eofInValue []
    | c :: r =>
      if c = 'n' then readWord null "ull".toList r
      else if c = 't' then readWord (bool true) "rue".toList r
      else if c = 'f' then readWord (bool false) "alse".toList r
      else if c = '"' then
        match readString r with
        | .error e => .error e
        | .ok (x, r) => .ok (string x, r)
      -- the sign is passed, and the first digit is not
      else if c = '-' then readNumber true r
      else if Chars.isDigit c then readNumber false (c :: r)
      else if c = '[' then
        match depth with
        | 0 => stopOn .tooDeep (c :: r)
        | depth + 1 =>
          match readFirstItem fuel depth r with
          | .error e => .error e
          | .ok (items, r) => .ok (array items, r)
      else if c = '\x7b' then
        match depth with
        | 0 => stopOn .tooDeep (c :: r)
        | depth + 1 =>
          match readFirstMember fuel depth r with
          | .error e => .error e
          | .ok (members, r) => .ok (object members, r)
      else stopOn .expectedValue (c :: r)

/-- What stands after the opening bracket of an array. -/
def readFirstItem (fuel depth : Nat) (s : List Char) : Outcome (List Json) :=
  match fuel with
  | 0 => stopAt .eofInList s
  | fuel + 1 =>
    match skipGaps s with
    | [] => stopAt .eofInList []
    | c :: r =>
      if c = ']' then .ok ([], r) else readItem fuel depth (c :: r)

/-- An item of an array and all that follow it. -/
def readItem (fuel depth : Nat) (s : List Char) : Outcome (List Json) :=
  match fuel with
  | 0 => stopAt .eofInList s
  | fuel + 1 =>
    match readValue fuel depth s with
    | .error e => .error e
    | .ok (v, r) =>
      match readMoreItems fuel depth r with
      | .error e => .error e
      | .ok (vs, r) => .ok (v :: vs, r)

/-- What stands after an item of an array. -/
def readMoreItems (fuel depth : Nat) (s : List Char) : Outcome (List Json) :=
  match fuel with
  | 0 => stopAt .eofInList s
  | fuel + 1 =>
    match skipGaps s with
    | [] => stopAt .eofInList []
    | c :: r =>
      if c = ']' then .ok ([], r)
      else if c = ',' then
        match skipGaps r with
        | [] => stopAt .eofInValue []
        | d :: r => if d = ']' then stopOn .trailingComma (d :: r) else readItem fuel depth (d :: r)
      else stopOn .expectedListCommaOrEnd (c :: r)

/-- What stands after the opening brace of an object. -/
def readFirstMember (fuel depth : Nat) (s : List Char) : Outcome (List (String × Json)) :=
  match fuel with
  | 0 => stopAt .eofInObject s
  | fuel + 1 =>
    match skipGaps s with
    | [] => stopAt .eofInObject []
    | c :: r =>
      if c = '\x7d' then .ok ([], r)
      else if c = '"' then readMember fuel depth r
      else stopOn .keyMustBeString (c :: r)

/-- A member of an object, after the opening quote of its key, and all that follow it. -/
def readMember (fuel depth : Nat) (s : List Char) : Outcome (List (String × Json)) :=
  match fuel with
  | 0 => stopAt .eofInObject s
  | fuel + 1 =>
    match readString s with
    | .error e => .error e
    | .ok (k, r) =>
      match skipGaps r with
      | [] => stopAt .eofInObject []
      | c :: r =>
        if c = ':' then
          match readValue fuel depth r with
          | .error e => .error e
          | .ok (v, r) =>
            match readMoreMembers fuel depth r with
            | .error e => .error e
            | .ok (ms, r) => .ok ((k, v) :: ms, r)
        else stopOn .expectedColon (c :: r)

/-- What stands after a member of an object. -/
def readMoreMembers (fuel depth : Nat) (s : List Char) : Outcome (List (String × Json)) :=
  match fuel with
  | 0 => stopAt .eofInObject s
  | fuel + 1 =>
    match skipGaps s with
    | [] => stopAt .eofInObject []
    | c :: r =>
      if c = '\x7d' then .ok ([], r)
      else if c = ',' then
        match skipGaps r with
        | [] => stopAt .eofInValue []
        | d :: r =>
          if d = '"' then readMember fuel depth r
          else if d = '\x7d' then stopOn .trailingComma (d :: r)
          else stopOn .keyMustBeString (d :: r)
      else stopOn .expectedObjectCommaOrEnd (c :: r)
end

/-- How deep arrays and objects may be nested. -/
def maxDepth : Nat := 127

/-- A whole text: one value with blanks around it. -/
def readWhole (s : List Char) : Except Stop Json :=
  -- no call reads nothing more than twice in a row, so the fuel is enough
  match readValue (3 * s.length + 3) maxDepth s with
  | .error e => .error e
  | .ok (v, r) =>
    match skipGaps r with
    | [] => .ok v
    | c :: r => .error ⟨.trailingCharacters, c :: r, 1⟩

/-! ## Places -/

/-- A fault with its place in the text. -/
structure SyntaxFault where
  fault : Fault
  line : Nat
  column : Nat
  deriving DecidableEq, Repr

/-- One entry for each byte of the text: does it end a line? -/
def lineEnds : List Char → List Bool
  | [] => []
  | c :: r => if c = '\n' then true :: lineEnds r else List.replicate c.utf8Size false ++ lineEnds r

/-- Line and column reached after some bytes. -/
def advance : Nat × Nat → List Bool → Nat × Nat
  | p, [] => p
  | (line, _), true :: r => advance (line + 1, 0) r
  | (line, column), false :: r => advance (line, column + 1) r

/-- The place at which reading `text` stopped. -/
def Stop.locate (text : List Char) (stop : Stop) : SyntaxFault :=
  -- the text that is left tells how many bytes were read
  let offset := Chars.utf8Size text - Chars.utf8Size stop.rest + stop.ahead
  let (line, column) := advance (1, 0) ((lineEnds text).take offset)
  ⟨stop.fault, line, column⟩

/-- The words for a fault and its place. -/
def SyntaxFault.message (e : SyntaxFault) : String :=
  e.fault.message ++ " at line " ++ Text.ofNat e.line ++ " column " ++ Text.ofNat e.column

/-! ## Whole texts -/

/-- The document that a text holds, its members as written; a `Stop` is located in the text
(`Stop.locate`). -/
def readDocument (text : String) : Except SyntaxFault Json :=
  (readWhole text.toList).mapError (Stop.locate text.toList)

/-- The value that a text holds: `readDocument`, and then `normalize`. -/
def parse (text : String) : Except SyntaxFault Json := (readDocument text).map normalize

end RestCase.Json
