/-
# RestCase.Chars.Quoted — quoted texts in messages

`Text.quoted` puts a text between double quotes, in which a backslash shows every quote, backslash,
and character that has no form of its own on a line (`Chars.isVisible`): controls, spaces other than
the plain one, marks that join the character before them, and what is not assigned.

Texts are quoted so in messages only.  The quoting of JSON is `Json.quote`.
-/
import RestCase.Chars.Category
import RestCase.Chars.Digits

namespace RestCase.Chars

/-- The categories without a form of their own. -/
def invisible : List Category :=
  [.control, .format, .privateUse, .unassigned, .lineSeparator, .paragraphSeparator,
    .spaceSeparator]

/-- The characters that extend the one before them, beyond the marks that take no space. -/
def otherExtenders : List Run := runs
  ["9be 9d7 b3e b57 bbe bd7 cc2 cd5-cd6 d3e d57 dcf ddf 1b35 200c 302e-302f ff9e-ff9f 1133e",
   "11357 114b0 114bd 115af 11930 1d165 1d16e-1d172 e0020-e007f"]

/-- A character that extends the one before it. -/
def extendsBefore (c : Char) : Bool :=
  inRuns nonspacingMarks c || inRuns enclosingMarks c || inRuns otherExtenders c

/-- A character that is shown as it is: of no category of `invisible`. -/
def isVisible (c : Char) : Bool :=
  if c.toNat < 128 then 32 ≤ c.toNat && c.toNat < 127
  else !(invisible.any (·.holds c)) && !extendsBefore c

/-- The hexadecimal digits of a number, the last one first. -/
def hexDigitsRev (n : Nat) : List Char :=
  let d := Char.ofNat (if n % 16 < 10 then 48 + n % 16 else 87 + n % 16)
  if n < 16 then [d] else d :: hexDigitsRev (n / 16)

/-- The hexadecimal digits of a number. -/
def hexDigits (n : Nat) : List Char := (hexDigitsRev n).reverse

/-- A character as it stands between double quotes: itself where it `isVisible`, else an escape by
letter or by `hexDigits`. -/
def quoteChar (c : Char) : List Char :=
  if c = '"' then ['\\', '"']
  else if c = '\\' then ['\\', '\\']
  else if c = '\n' then ['\\', 'n']
  else if c = '\r' then ['\\', 'r']
  else if c = '\t' then ['\\', 't']
  else if c = '\x00' then ['\\', '0']
  else if isVisible c then [c]
  else '\\' :: 'u' :: '\x7b' :: (hexDigits c.toNat ++ ['\x7d'])

/-- A text between double quotes. -/
def quoted (s : List Char) : List Char := '"' :: (s.flatMap quoteChar ++ ['"'])

end RestCase.Chars

namespace RestCase.Text

/-- `Chars.quoted` on strings. -/
def quoted (s : String) : String := String.ofList (Chars.quoted s.toList)

end RestCase.Text
