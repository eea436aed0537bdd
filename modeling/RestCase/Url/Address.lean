/-
# RestCase.Url.Address — numeric addresses

A host may be a number.  A name whose last part is a number (`Url.endsInNumber`) has to be an
address of four bytes, written as up to four parts in decimal, octal or hexadecimal
(`Url.readShortAddress?`); between brackets stand the eight pieces of a long address, where `::`
stands for a run of zeros (`Url.readLongAddress?`).

An address is written in one way only: four decimal numbers, or the pieces in hexadecimal with the
longest run of zeros left out.
-/
import RestCase.Chars.Digits
import RestCase.Chars.Quoted

namespace RestCase.Url

/-! ## Short addresses -/

/-- A part of a short address: its base and its digits. -/
def partDigits (s : List Char) : Nat × List Char :=
  match s with
  | '0' :: 'x' :: r => (16, r)
  | '0' :: 'X' :: r => (16, r)
  -- a zero alone is a decimal, as there is nothing behind it
  | '0' :: c :: r => (8, c :: r)
  | s => (10, s)

/-- The digits that a base has. -/
def isDigitOf (base : Nat) (c : Char) : Bool := Chars.isHexDigit c && Chars.hexValue c < base

/-- The number that a part of an address stands for. -/
def partValue? (s : List Char) : Option Nat :=
  if s.isEmpty then none
  else
    let (base, digits) := partDigits s
    if digits.all (isDigitOf base) then
      some (digits.foldl (fun n c => n * base + Chars.hexValue c) 0)
    else none

/-- The parts of a name between dots, without an empty last one. -/
def nameParts (s : List Char) : List (List Char) :=
  let parts := s.splitOnP (· == '.')
  -- the dot at the end of a name that is complete
  if parts.getLast? == some [] then parts.dropLast else parts

/-- The last part of the name is a number. -/
def endsInNumber (s : List Char) : Bool :=
  match (nameParts s).getLast? with
  | none => false
  | some last => (!last.isEmpty && last.all Chars.isDigit) || (partValue? last).isSome

/-- The address that numbers stand for: the last one fills the bytes that the others leave. -/
def shortAddress? (numbers : List Nat) : Option Nat :=
  match numbers.reverse with
  | [] => none
  | last :: before =>
    let leading := before.reverse
    if 3 < leading.length ∨ Nat.pow 256 (4 - leading.length) ≤ last then none
    else if leading.any (255 < ·) then none
    else some (leading.zipIdx.foldl (fun n e => n + e.1 * Nat.pow 256 (3 - e.2)) last)

/-- The short address that a name stands for, put together by `shortAddress?`. -/
def readShortAddress? (s : List Char) : Option Nat :=
  ((nameParts s).mapM partValue?).bind shortAddress?

/-- A short address as four decimal numbers. -/
def shortAddressChars (n : Nat) : List Char :=
  ['.'].intercalate
    ([n / 0x1000000 % 256, n / 0x10000 % 256, n / 256 % 256, n % 256].map Chars.digits)

/-! ## Long addresses -/

/-- A decimal number below 256 without leading zeros at the front of a text. -/
def readByte? (s : List Char) : Option (Nat × List Char) :=
  let (digits, rest) := Chars.takeDigits s
  let n := Chars.ofDigits digits
  let padded := digits.head? == some '0' && 1 < digits.length
  if digits.isEmpty || 3 < digits.length || 255 < n || padded then none else some (n, rest)

/-- Four bytes with dots between them and nothing after, as two pieces. -/
def readBytes? (s : List Char) : Option (List Nat) := do
  let (a, r) ← readByte? s
  let (b, r) ← afterDot? r
  let (c, r) ← afterDot? r
  let (d, r) ← afterDot? r
  if r.isEmpty then some [256 * a + b, 256 * c + d] else none
where
  /-- The byte after a dot. -/
  afterDot? : List Char → Option (Nat × List Char)
    | '.' :: r => readByte? r
    | _ => none

/-- The pieces read so far, first the ones before `::`, if it was there, then the ones after it. -/
structure PieceDraft where
  beforeGap : Option (List Nat)
  current : List Nat

/-- The number of pieces so far; `::` stands for one piece at least. -/
def PieceDraft.count (d : PieceDraft) : Nat :=
  d.current.length + match d.beforeGap with
    | some l => l.length + 1
    | none => 0

/-- The eight pieces, zeros put where `::` stands. -/
def PieceDraft.finish? (d : PieceDraft) : Option (List Nat) :=
  match d.beforeGap with
  | some l => some (l ++ List.replicate (8 - l.length - d.current.length) 0 ++ d.current)
  | none => if d.current.length = 8 then some d.current else none

/-- Read the rest of a long address; every turn takes a character at least. -/
def readPieces? (draft : PieceDraft) : Nat → List Char → Option (List Nat)
  | 0, _ => none
  | _, [] => draft.finish?
  | fuel + 1, s =>
    if draft.count = 8 then none
    else match s with
    | ':' :: r =>
      if draft.beforeGap.isSome then none
      else readPieces? ⟨some draft.current, []⟩ fuel r
    | s =>
      let digits := (s.take 4).takeWhile Chars.isHexDigit
      let value := digits.foldl (fun n c => n * 16 + Chars.hexValue c) 0
      let next : PieceDraft := { draft with current := draft.current ++ [value] }
      match s.drop digits.length with
      | [] => next.finish?
      -- one colon at the end announces a piece that is missing
      | ':' :: [] => none
      | ':' :: r => readPieces? next fuel r
      | '.' :: _ =>
        -- the four bytes take the room of two pieces
        if digits.isEmpty || 6 < draft.count then none
        else match readBytes? s with
          | some two => PieceDraft.finish? { draft with current := draft.current ++ two }
          | none => none
      | _ => none

/-- The eight pieces of a long address. -/
def readLongAddress? (s : List Char) : Option (List Nat) :=
  match s with
  | c :: d :: r =>
    if c = ':' then
      if d = ':' then readPieces? ⟨some [], []⟩ (r.length + 1) r else none
    else readPieces? ⟨none, []⟩ (s.length + 1) s
  | _ => none

/-- Where the longest run of zeros begins and how long it is; of two the first. -/
def longestZeros (pieces : List Nat) : Nat × Nat :=
  go 0 (0, 0) pieces
where
  /-- The better of the best run so far and those in the rest. -/
  go (start : Nat) (best : Nat × Nat) : List Nat → Nat × Nat
    | [] => best
    | p :: r =>
      let run := ((p :: r).takeWhile (· == 0)).length
      go (start + 1) (if best.2 < run then (start, run) else best) r

/-- Pieces in hexadecimal with colons between them. -/
def pieceChars (pieces : List Nat) : List Char :=
  [':'].intercalate (pieces.map Chars.hexDigits)

/-- A long address, its `longestZeros` left out where they are two or more. -/
def longAddressChars (pieces : List Nat) : List Char :=
  let (start, length) := longestZeros pieces
  if length < 2 then pieceChars pieces
  else pieceChars (pieces.take start) ++ [':', ':'] ++ pieceChars (pieces.drop (start + length))

end RestCase.Url
