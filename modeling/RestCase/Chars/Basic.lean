/-
# RestCase.Chars.Basic — blank characters, letter case, and the two ends of a text

Texts are handled as lists of characters, and the names under `Text` are the same functions on
strings.  `Chars.isBlank` is the Unicode property White_Space, the class that trimming uses
everywhere in this library; `Chars.isAsciiGap` is the narrower class of gaps in ASCII, which the
quotes of a condition look at.

Boundary: letter case is ASCII case (`Chars.toLower`), so that a comparison "ignoring case" never
equates a letter beyond ASCII with anything but itself.  Patterns that ignore case use
`RestCase.Chars.CaseFold` instead.
-/

namespace RestCase.Chars

/-! ## Blank characters -/

/-- The characters with the Unicode property White_Space. -/
def isBlank (c : Char) : Bool :=
  let n := c.toNat
  (0x09 ≤ n && n ≤ 0x0D) || n == 0x20 || n == 0x85 || n == 0xA0 || n == 0x1680
    || (0x2000 ≤ n && n ≤ 0x200A) || n == 0x2028 || n == 0x2029 || n == 0x202F
    || n == 0x205F || n == 0x3000

/-- The gap characters of ASCII: space, tab, line feed, form feed, carriage return. -/
def isAsciiGap (c : Char) : Bool :=
  c == ' ' || c == '\t' || c == '\n' || c == '\x0C' || c == '\r'

/-- An ASCII decimal digit. -/
def isDigit (c : Char) : Bool := '0' ≤ c && c ≤ '9'

/-- An ASCII letter. -/
def isLetter (c : Char) : Bool := ('a' ≤ c && c ≤ 'z') || ('A' ≤ c && c ≤ 'Z')

/-- An ASCII hexadecimal digit. -/
def isHexDigit (c : Char) : Bool :=
  isDigit c || ('a' ≤ c && c ≤ 'f') || ('A' ≤ c && c ≤ 'F')

/-- The value of a hexadecimal digit; zero for any other character. -/
def hexValue (c : Char) : Nat :=
  if isDigit c then c.toNat - 48
  else if 'a' ≤ c && c ≤ 'f' then c.toNat - 87
  else if 'A' ≤ c && c ≤ 'F' then c.toNat - 55
  else 0

/-! ## Trimming -/

/-- The text without its leading blanks. -/
def trimStart (s : List Char) : List Char := s.dropWhile isBlank

/-- The text without its trailing blanks. -/
def trimEnd (s : List Char) : List Char := (s.reverse.dropWhile isBlank).reverse

/-- The text without the blanks at either end. -/
def trim (s : List Char) : List Char := trimEnd (trimStart s)

theorem dropWhile_eq_nil_iff (p : Char → Bool) (s : List Char) :
    s.dropWhile p = [] ↔ ∀ c ∈ s, p c = true := by
  induction s with
  | nil => simp
  | cons c r ih => by_cases h : p c = true <;> simp [h, ih]

theorem trimEnd_eq_nil_iff (s : List Char) :
    trimEnd s = [] ↔ ∀ c ∈ s, isBlank c = true := by
  rw [trimEnd, List.reverse_eq_nil_iff, dropWhile_eq_nil_iff]
  simp only [List.mem_reverse]

theorem trim_eq_nil_iff (s : List Char) : trim s = [] ↔ ∀ c ∈ s, isBlank c = true := by
  rw [trim, trimEnd_eq_nil_iff, trimStart]
  induction s with
  | nil => simp
  | cons c r ih =>
    by_cases h : isBlank c = true
    · simpa [List.dropWhile_cons, h] using ih
    · simp [h]

/-! ## Letter case -/

/-- ASCII upper-case letters to lower case, all else unchanged. -/
def toLower (s : List Char) : List Char := s.map Char.toLower

/-- ASCII lower-case letters to upper case, all else unchanged. -/
def toUpper (s : List Char) : List Char := s.map Char.toUpper

/-- Equality up to the case of ASCII letters: `toLower` makes the two the same. -/
def sameIgnoringCase (s t : List Char) : Bool := toLower s == toLower t

theorem sameIgnoringCase_iff (s t : List Char) :
    sameIgnoringCase s t = true ↔ toLower s = toLower t := by
  simp [sameIgnoringCase]

/-! ## Size in bytes -/

/-- The number of bytes of the UTF-8 form. -/
def utf8Size (s : List Char) : Nat := s.foldl (fun n c => n + c.utf8Size) 0

end RestCase.Chars

namespace RestCase.Text

/-- `Chars.trim` on strings. -/
def trim (s : String) : String := String.ofList (Chars.trim s.toList)

/-- A string of blanks only. -/
def isBlank (s : String) : Bool := s.toList.all Chars.isBlank

/-- `Chars.toLower` on strings. -/
def toLower (s : String) : String := String.ofList (Chars.toLower s.toList)

/-- `Chars.toUpper` on strings. -/
def toUpper (s : String) : String := String.ofList (Chars.toUpper s.toList)

/-- `Chars.sameIgnoringCase` on strings. -/
def sameIgnoringCase (s t : String) : Bool := Chars.sameIgnoringCase s.toList t.toList

end RestCase.Text
