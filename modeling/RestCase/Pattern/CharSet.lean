/-
# RestCase.Pattern.CharSet — the sets of characters that a pattern can write down

`CharSet` is an expression over intervals, general categories and a few properties; membership
(`CharSet.mem`) is the one operation on it, and it is decided part by part (`mem_union`,
`mem_inter`, `mem_complement`).

What counts as a character of a word, as a decimal digit or as the same letter in another case
differs between editions of the character database, and so do the sets that `\p{…}` can name.  All
of this is taken from `Characters`, which is a parameter of everything that reads or matches a
pattern; nothing is assumed of it.  `Characters.standard` is made from the tables of
`RestCase.Chars`.  Its boundary: of the properties it knows the general categories, the scripts and
five that are true or false (`CharSet.ofPropertyName?`), but no ages, no script extensions, and no
breaks between words or sentences.
-/
import RestCase.Chars.CaseFold
import RestCase.Chars.Category
import RestCase.Chars.Script
import RestCase.Chars.Search

namespace RestCase.Pattern

/-- A set of characters. -/
inductive CharSet where
  | interval (first last : Nat)
  | runs (l : List Chars.Run)
  | category (l : List Chars.Category)
  | word
  | decimal
  | blank
  | alphabetic
  | upper
  | lower
  | union (a b : CharSet)
  | inter (a b : CharSet)
  | complement (a : CharSet)
  | folded (a : CharSet)
  deriving DecidableEq, Repr

namespace CharSet

/-- The set of no character. -/
def none : CharSet := runs []

/-- The set of one character. -/
def single (c : Char) : CharSet := interval c.toNat c.toNat

/-- All characters. -/
def all : CharSet := interval 0 0x10FFFF

/-- The characters of ASCII. -/
def ascii : CharSet := interval 0 0x7F

/-- The members of one set that are not in the other. -/
def diff (a b : CharSet) : CharSet := inter a (complement b)

/-- The characters in exactly one of two sets. -/
def symmDiff (a b : CharSet) : CharSet := union (diff a b) (diff b a)

/-- The union of intervals of characters. -/
def ofIntervals (l : List (Char × Char)) : CharSet :=
  runs (l.map fun r => ⟨r.1.toNat, r.2.toNat, 1⟩)

/-! ## Sets with a name -/

/-- The ASCII classes that stand between `[:` and `:]`. -/
def ofClassName? : String → Option CharSet
  | "alnum" => some (ofIntervals [('0', '9'), ('A', 'Z'), ('a', 'z')])
  | "alpha" => some (ofIntervals [('A', 'Z'), ('a', 'z')])
  | "ascii" => some ascii
  | "blank" => some (ofIntervals [('\t', '\t'), (' ', ' ')])
  | "cntrl" => some (ofIntervals [('\x00', '\x1F'), ('\x7F', '\x7F')])
  | "digit" => some (ofIntervals [('0', '9')])
  | "graph" => some (ofIntervals [('!', '~')])
  | "lower" => some (ofIntervals [('a', 'z')])
  | "print" => some (ofIntervals [(' ', '~')])
  | "punct" => some (ofIntervals [('!', '/'), (':', '@'), ('[', '\x60'), ('\x7B', '~')])
  | "space" => some (ofIntervals [('\t', '\r'), (' ', ' ')])
  | "upper" => some (ofIntervals [('A', 'Z')])
  | "word" => some (ofIntervals [('0', '9'), ('A', 'Z'), ('_', '_'), ('a', 'z')])
  | "xdigit" => some (ofIntervals [('0', '9'), ('A', 'F'), ('a', 'f')])
  | _ => Option.none

/-- A property name in lower case, without blanks, hyphens, low lines, and a leading `is`. -/
def plainName (name : List Char) : String :=
  let s := (Chars.toLower name).filter fun c => !(Chars.isBlank c || c == '_' || c == '-')
  String.ofList (match s with
    | ['i', 's', 'c'] => s
    | 'i' :: 's' :: r => r
    | _ => s)

/-- The general category with a name (`Chars.Category.named?`), or one of the three names beside
them. -/
def ofCategoryName? (name : String) : Option CharSet :=
  match name with
  | "any" => some all
  | "assigned" => some (complement (category [.unassigned]))
  | "ascii" => some ascii
  | _ => (Chars.Category.named? name).map category

/-- The property, category or script with a name. -/
def ofPropertyName? (name : String) : Option CharSet :=
  match name with
  | "alphabetic" | "alpha" => some alphabetic
  | "uppercase" | "upper" => some upper
  | "lowercase" | "lower" => some lower
  | "whitespace" | "wspace" | "space" => some blank
  | "asciihexdigit" | "ahex" => some (ofIntervals [('0', '9'), ('A', 'F'), ('a', 'f')])
  | _ => (ofCategoryName? name).orElse fun _ => (Chars.Script.named? name).map runs

/-- The set that a property with a value names. -/
def ofPropertyValue? (property value : String) : Option CharSet :=
  match property with
  | "gc" | "generalcategory" => ofCategoryName? value
  | "sc" | "script" => (Chars.Script.named? value).map runs
  | _ => Option.none

/-- The set of a value of a property. -/
def valueSet? (property value : List Char) : Option CharSet :=
  ofPropertyValue? (plainName property) (plainName value)

/-- The set that the text of a property names, and whether the text asks for the opposite: a
property with its value behind `!=`, `:` or `=`, or a name alone. -/
def propertySet? (name : List Char) : Option (CharSet × Bool) :=
  -- the longer mark comes first, as it would be cut at its equals sign
  match Chars.splitFirst? "!=".toList name with
  | some (p, v) => (valueSet? p v).map (·, true)
  | .none =>
    match (Chars.splitFirst? ":".toList name).orElse fun _ => Chars.splitFirst? "=".toList name with
    | some (p, v) => (valueSet? p v).map (·, false)
    | .none => (ofPropertyName? (plainName name)).map (·, false)

end CharSet

/-! ## The character database -/

/-- What patterns take from a character database.  It is open, since editions differ;
`Characters.standard` is the one at hand. -/
class Characters where
  /-- The characters of words, in all scripts. -/
  isWord : Char → Bool
  /-- The decimal digits of all scripts. -/
  isDecimal : Char → Bool
  /-- The characters that differ from a character in case only. -/
  variants : Char → List Char
  /-- The letters, in all scripts, with which the name of a group can begin. -/
  isAlphabetic : Char → Bool
  /-- The numbers, in all scripts, that the name of a group can have further on. -/
  isNumeric : Char → Bool
  /-- The set that the text of a property names, and whether the text asks for the opposite. -/
  property? : List Char → Option (CharSet × Bool)

/-- The database of the tables in `RestCase.Chars`. -/
@[reducible] def Characters.standard : Characters where
  isWord := Chars.isWordChar
  isDecimal := Chars.Category.decimalNumber.holds
  variants c := (Chars.foldClass c.toNat).map Char.ofNat
  isAlphabetic := Chars.isAlphabetic
  isNumeric := Chars.isNumeric
  property? := CharSet.propertySet?

/-! ## Membership -/

namespace CharSet

variable [Characters]

/-- The character belongs to the set.  A folded set holds every character that differs only in
case (`Chars.foldClass`) from a member of it. -/
def mem : CharSet → Char → Bool
  | interval first last, c => first ≤ c.toNat && c.toNat ≤ last
  | runs l, c => Chars.inRuns l c
  | category l, c => l.any (·.holds c)
  | word, c => Characters.isWord c
  | decimal, c => Characters.isDecimal c
  | blank, c => Chars.isBlank c
  | alphabetic, c => Chars.isAlphabetic c
  | upper, c => Chars.isUpper c
  | lower, c => Chars.isLower c
  | union a b, c => a.mem c || b.mem c
  | inter a b, c => a.mem c && b.mem c
  | complement a, c => !a.mem c
  | folded a, c => a.mem c || (Characters.variants c).any fun d => a.mem d

@[simp] theorem mem_union (a b : CharSet) (c : Char) : (union a b).mem c = (a.mem c || b.mem c) :=
  rfl

@[simp] theorem mem_inter (a b : CharSet) (c : Char) : (inter a b).mem c = (a.mem c && b.mem c) :=
  rfl

@[simp] theorem mem_complement (a : CharSet) (c : Char) : (complement a).mem c = !a.mem c := rfl

end CharSet

end RestCase.Pattern
