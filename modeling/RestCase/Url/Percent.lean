/-
# RestCase.Url.Percent — percent encoding

In each part of a URL some characters stand for themselves and the others are written as the bytes
of their UTF-8 form, each byte as `%` and two upper-case hexadecimal digits (`Url.encode`).  Which
are which is a predicate for each part, from `Url.reservedAnywhere` up.  Text without reserved
characters is its own encoding (`encode_eq_self`).
-/
import RestCase.Chars.Basic

namespace RestCase.Url

/-! ## Reserved characters -/

/-- Control characters and everything that is not ASCII. -/
def reservedAnywhere (c : Char) : Bool := c.toNat < 0x20 || 0x7e < c.toNat

/-- Reserved in a query. -/
def reservedInQuery (c : Char) : Bool :=
  reservedAnywhere c || [' ', '"', '#', '<', '>'].contains c

/-- Reserved in the query of a URL with a special scheme. -/
def reservedInSpecialQuery (c : Char) : Bool := reservedInQuery c || c == '\''

/-- Reserved in a fragment. -/
def reservedInFragment (c : Char) : Bool :=
  reservedAnywhere c || [' ', '"', '<', '>', '\x60'].contains c

/-- Reserved in a path. -/
def reservedInPath (c : Char) : Bool :=
  reservedInFragment c || ['#', '?', '\x7b', '\x7d'].contains c

/-- Reserved in a user name or a password. -/
def reservedInUserInfo (c : Char) : Bool :=
  reservedInPath c || ['/', ':', ';', '=', '@', '[', '\\', ']', '^', '|'].contains c

/-! ## Encoding -/

/-- A hexadecimal digit in upper case. -/
def upperHex (d : Nat) : Char := if d < 10 then Char.ofNat (48 + d) else Char.ofNat (55 + d)

/-- A byte as it is written. -/
def encodeByte (b : UInt8) : List Char := ['%', upperHex (b.toNat / 16), upperHex (b.toNat % 16)]

/-- A character as it is written. -/
def encodeChar (reserved : Char → Bool) (c : Char) : List Char :=
  if reserved c then (String.utf8EncodeChar c).flatMap encodeByte else [c]

/-- A text as it is written. -/
def encode (reserved : Char → Bool) (s : List Char) : List Char := s.flatMap (encodeChar reserved)

theorem encode_eq_self {reserved : Char → Bool} {s : List Char}
    (h : ∀ c ∈ s, reserved c = false) : encode reserved s = s := by
  induction s with
  | nil => rfl
  | cons c r ih =>
    have hc : encodeChar reserved c = [c] := by simp [encodeChar, h c]
    have hr : encode reserved r = r := ih fun d hd => h d (by simp [hd])
    simp only [encode, List.flatMap_cons] at hr ⊢
    rw [hc, hr]
    rfl

/-! ## Decoding -/

/-- The bytes of a text in which `%` and two hexadecimal digits stand for one byte. -/
def decodeBytes : List Char → List UInt8
  | [] => []
  | '%' :: a :: b :: r =>
    if Chars.isHexDigit a && Chars.isHexDigit b then
      UInt8.ofNat (16 * Chars.hexValue a + Chars.hexValue b) :: decodeBytes r
    else '%'.toUInt8 :: decodeBytes (a :: b :: r)
  | c :: r => String.utf8EncodeChar c ++ decodeBytes r

/-- The text that the bytes (`decodeBytes`) amount to, if they are UTF-8. -/
def decode? (s : List Char) : Option (List Char) :=
  (String.fromUTF8? (ByteArray.mk (decodeBytes s).toArray)).map String.toList

end RestCase.Url
