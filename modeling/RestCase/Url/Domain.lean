/-
# RestCase.Url.Domain — how a domain name is written in ASCII

The reader of URLs decodes the percent signs of a host (`decode?`) and leaves the rest to a mapping
of domain names, `Names.toAscii?`: which names there are, and how they are written in ASCII.  The
mapping depends on the edition of the character database, so all that reads a URL takes it as a
parameter.  `LawfulNames` (`RestCase.Proofs.Url.Domain`) says what is relied on: a name in ASCII is
its own ASCII form and nothing that delimits the parts of a URL stands in it.

`asciiDomain?` is the mapping of a run for which no other is named, and `LawfulNames` is proved of
it.  Its boundary: a character is folded without regard to case, full-width ASCII to ASCII, and a
few characters are left out (`foldedChar`), but no other character is replaced by one that it is
compatible with, and the result is not composed.  A label may hold letters, marks, numbers,
punctuation and symbols (`labelAllowed`), whichever way they are written and whatever stands next
to a joiner.  A name of ASCII characters is mapped as by any edition, labels in Punycode apart.
-/
import RestCase.Chars.CaseFold
import RestCase.Chars.Category
import RestCase.Url.Punycode

namespace RestCase.Url

open RestCase.Chars (Category foldPoint)

/-- ASCII characters that no domain name has. -/
def forbiddenInDomain (c : Char) : Bool :=
  c.toNat ≤ 0x20 || c.toNat == 0x7f ||
    ['%', '#', '/', ':', '<', '>', '?', '@', '[', '\\', ']', '^', '|'].contains c

/-- Characters that are left out of a domain name. -/
def ignoredInDomain (c : Char) : Bool :=
  let n := c.toNat
  [0xad, 0x34f, 0x200b, 0x2060, 0x2064, 0xfeff].contains n || (0x180b ≤ n && n ≤ 0x180d) ||
    (0xfe00 ≤ n && n ≤ 0xfe0f) || (0xe0100 ≤ n && n ≤ 0xe01ef)

/-- What a character of a domain name stands for. -/
def foldedChar (c : Char) : List Char :=
  let n := c.toNat
  if n < 0x80 then [c.toLower]
  else if ignoredInDomain c then []
  else if n = 0x3002 || n = 0xff61 then ['.']
  else if 0xff01 ≤ n && n ≤ 0xff5e then [(Char.ofNat (n - 0xfee0)).toLower]
  else if n = 0x3c2 then [c]
  else if n = 0x130 then ['i', Char.ofNat 0x307]
  else [Char.ofNat (foldPoint n)]

theorem foldedChar_ascii {c : Char} (h : c.toNat < 0x80) : foldedChar c = [c.toLower] := by
  simp [foldedChar, h]

/-- Other than ASCII, only letters, marks, numbers, punctuation and symbols stand in a name. -/
def allowedInDomain (c : Char) : Bool :=
  if c.toNat < 0x80 then !forbiddenInDomain c
  else [0x200c, 0x200d].contains c.toNat ||
    !((Category.others ++ Category.separators).any (·.holds c))

/-- A label with its characters folded can stand in a name. -/
def labelAllowed (label : List Char) : Bool :=
  label.all allowedInDomain &&
    match label with
    | c :: _ => !(Category.marks.any (·.holds c))
    | [] => true

/-- The mark of a label in Punycode. -/
def encodedMark : List Char := ['x', 'n', '-', '-']

/-- A label in ASCII, if it can be written so: as it is, or in Punycode behind the `encodedMark`. -/
def asciiLabel? (label : List Char) : Option (List Char) :=
  if encodedMark.isPrefixOf label then
    match Punycode.decode? (label.drop 4) with
    | some inner =>
      if inner.any (fun c => 0x80 ≤ c.toNat) && labelAllowed inner &&
        inner.all (fun c => foldedChar c == [c]) then some label else none
    | none => none
  else if labelAllowed label then
    (if label.all fun c => c.toNat < 0x80 then some label
      else some (encodedMark ++ Punycode.encode label))
  else none

/-- A domain name in ASCII, if it can be written so: characters by `foldedChar`, labels by
`asciiLabel?`. -/
def asciiDomain? (name : List Char) : Option (List Char) :=
  (((name.flatMap foldedChar).splitOnP (· == '.')).mapM asciiLabel?).map fun labels =>
    ['.'].intercalate labels

/-! ## The mapping as a parameter -/

/-- A mapping of domain names to ASCII.  What is relied on is named by `LawfulNames`. -/
class Names where
  /-- The name in ASCII, if it is the name of a domain. -/
  toAscii? : List Char → Option (List Char)

/-- The mapping of a run for which no other is named: `asciiDomain?`. -/
instance Names.standard : Names where
  toAscii? := asciiDomain?

end RestCase.Url
