/-
# RestCase.Yaml.Cursor — reading a YAML text character by character

A `Yaml.Cursor` is a place in a text together with its line and column.  A line ends with a line
feed, a carriage return, both of them together, or one of three other characters; all but two of
these stand for a line feed once they are read (`Cursor.lineEnd`).
-/
import RestCase.Chars.Basic

namespace RestCase.Yaml

/-- A place in a text: what is left, how many characters came before, and the line and column. -/
structure Cursor where
  rest : List Char
  index : Nat
  line : Nat
  column : Nat

/-! ## Characters -/

/-- A character that may stand in a text at all. -/
def isAllowed (c : Char) : Bool :=
  let n := c.toNat
  n == 0x09 || n == 0x0A || n == 0x0D || (0x20 ≤ n && n ≤ 0x7E) || n == 0x85
    || (0xA0 ≤ n && n ≤ 0xD7FF) || (0xE000 ≤ n && n ≤ 0xFFFD) || 0x10000 ≤ n

/-- A character that ends a line. -/
def isBreak (c : Char) : Bool :=
  c == '\n' || c == '\r' || c == '\u0085' || c == '\u2028' || c == '\u2029'

/-- A space or a tab. -/
def isGap (c : Char) : Bool := c == ' ' || c == '\t'

/-- A character of a name: a letter, a digit, a low line or a hyphen. -/
def isNameChar (c : Char) : Bool := Chars.isLetter c || Chars.isDigit c || c == '_' || c == '-'

/-- The text is at its end, or a gap or the end of a line comes next. -/
def endsWord (s : List Char) : Bool :=
  match s with
  | [] => true
  | c :: _ => isGap c || isBreak c

/-- The text is at its end, or the end of a line comes next. -/
def endsLine (s : List Char) : Bool :=
  match s with
  | [] => true
  | c :: _ => isBreak c

/-- A document mark: three equal characters and then the end of a word. -/
def isDocumentMark (c : Char) (s : List Char) : Bool :=
  match s with
  | x :: y :: z :: r => x == c && y == c && z == c && endsWord r
  | _ => false

namespace Cursor

/-- The start of a text. -/
def start (text : List Char) : Cursor := ⟨text, 0, 0, 0⟩

/-- One character on, within a line. -/
def step (c : Cursor) : Cursor :=
  match c.rest with
  | [] => c
  | _ :: r => ⟨r, c.index + 1, c.line, c.column + 1⟩

/-- Several characters on, within a line. -/
def steps : Nat → Cursor → Cursor
  | 0, c => c
  | n + 1, c => steps n c.step

/-- Past the end of a line. -/
def stepLine (c : Cursor) : Cursor :=
  match c.rest with
  | '\r' :: '\n' :: r => ⟨r, c.index + 2, c.line + 1, 0⟩
  | x :: r => if isBreak x then ⟨r, c.index + 1, c.line + 1, 0⟩ else c
  | [] => c

/-- What the end of a line stands for once it is read. -/
def lineEnd (c : Cursor) : List Char :=
  match c.rest with
  | x :: _ =>
    if x == '\u2028' || x == '\u2029' then [x] else if isBreak x then ['\n'] else []
  | [] => []

/-- On over the characters of a kind, within a line. -/
def skipWhile (p : Char → Bool) (c : Cursor) : Cursor :=
  steps (c.rest.takeWhile p).length c

/-- The characters of a kind, and the cursor after them. -/
def takeWhile (p : Char → Bool) (c : Cursor) : List Char × Cursor :=
  (c.rest.takeWhile p, c.skipWhile p)

/-- The next character is the given one. -/
def sees (x : Char) (c : Cursor) : Bool := c.rest.head? == some x

end Cursor

end RestCase.Yaml
