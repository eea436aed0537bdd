/-
# RestCase.Json.Render — the text of a document

The compact text (`Json.compact`) has no blanks; the indented text (`Json.indented`) puts every item
and member on a line of its own, two blanks deeper than what holds it.  In strings only the quote,
the backslash and the characters below U+0020 are escaped (`Json.escapeChar`).  Members are written
in the order in which the document lists them.
-/
import RestCase.Json.Basic
import RestCase.Binary64.Shortest

namespace RestCase.Json

/-! ## Strings -/

/-- A hexadecimal digit below sixteen, in lower case. -/
def hexChar (d : Nat) : Char := if d < 10 then Char.ofNat (48 + d) else Char.ofNat (87 + d)

/-- A character as it stands inside a quoted string. -/
def escapeChar (c : Char) : List Char :=
  if c = '"' then ['\\', '"']
  else if c = '\\' then ['\\', '\\']
  else if 0x20 ≤ c.toNat then [c]
  else if c = '\x08' then ['\\', 'b']
  else if c = '\x0C' then ['\\', 'f']
  else if c = '\n' then ['\\', 'n']
  else if c = '\r' then ['\\', 'r']
  else if c = '\t' then ['\\', 't']
  else ['\\', 'u', '0', '0', hexChar (c.toNat / 16), hexChar (c.toNat % 16)]

/-- The characters of a quoted string, without the quotes. -/
def escape : List Char → List Char
  | [] => []
  | c :: r => escapeChar c ++ escape r

/-- A quoted string. -/
def quote (s : String) : List Char := '"' :: (escape s.toList ++ ['"'])

/-! ## Compact text -/

mutual
/-- The compact text. -/
def render : Json → List Char
  | null => "null".toList
  | bool b => (if b then "true" else "false").toList
  | int n => Chars.intDigits n
  | float x => x.chars
  | string s => quote s
  | array items => '[' :: (renderItems items ++ [']'])
  | object members => '{' :: (renderMembers members ++ ['}'])

/-- Items with commas between them. -/
def renderItems : List Json → List Char
  | [] => []
  | [v] => render v
  | v :: w :: r => render v ++ ',' :: renderItems (w :: r)

/-- Members with commas between them. -/
def renderMembers : List (String × Json) → List Char
  | [] => []
  | [(k, v)] => quote k ++ ':' :: render v
  | (k, v) :: e :: r => quote k ++ ':' :: (render v ++ ',' :: renderMembers (e :: r))
end

/-- The compact text as a string: `render` of the document as it stands. -/
def compact (v : Json) : String := String.ofList v.render

/-! ## Indented text -/

/-- A line end and the blanks in front of the next line. -/
def newLine (depth : Nat) : List Char := '\n' :: List.replicate (2 * depth) ' '

mutual
/-- The indented text of a document that stands `depth` levels deep. -/
def renderIndented (depth : Nat) : Json → List Char
  | array (v :: r) =>
    '[' :: (newLine (depth + 1) ++ renderIndented (depth + 1) v ++
      indentedItems (depth + 1) r ++ newLine depth ++ [']'])
  | object ((k, v) :: r) =>
    '{' :: (newLine (depth + 1) ++ quote k ++ ':' :: ' ' :: (renderIndented (depth + 1) v ++
      indentedMembers (depth + 1) r ++ newLine depth ++ ['}']))
  | array [] => ['[', ']']
  | object [] => ['{', '}']
  | null => "null".toList
  | bool b => (if b then "true" else "false").toList
  | int n => Chars.intDigits n
  | float x => x.chars
  | string s => quote s

/-- The items after the first, each on its own line. -/
def indentedItems (depth : Nat) : List Json → List Char
  | [] => []
  | v :: r => ',' :: (newLine depth ++ renderIndented depth v ++ indentedItems depth r)

/-- The members after the first, each on its own line. -/
def indentedMembers (depth : Nat) : List (String × Json) → List Char
  | [] => []
  | (k, v) :: r =>
    ',' :: (newLine depth ++ quote k ++ ':' :: ' ' :: (renderIndented depth v ++
      indentedMembers depth r))
end

/-- The indented text as a string. -/
def indented (v : Json) : String := String.ofList (v.renderIndented 0)

end RestCase.Json
