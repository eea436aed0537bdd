/-
# RestCase.Url.Punycode — names in ASCII

Punycode writes a text with any characters in letters, digits and hyphens.  First come the ASCII
characters of the text; then, in increasing order, the others: each as the number of places that one
has to pass, counting through all characters and all positions, to get from the last one to it
(`Encoding.pass`).

A number is written in base 36 with digits whose meaning adapts to the numbers before
(`Punycode.threshold`, `Punycode.adapt`); a digit reads back as its value (`digitOf?_digitChar`).
That `Punycode.decode?` undoes `Punycode.encode` is shown in `RestCase.Proofs.Url.Punycode`.
-/

namespace RestCase.Url.Punycode

/-! ## Digits -/

/-- The character of a digit below 36. -/
def digitChar (d : Nat) : Char :=
  if d < 26 then Char.ofNat (97 + d) else Char.ofNat (22 + d)

/-- The value of a digit. -/
def digitOf? (c : Char) : Option Nat :=
  if 'a' ≤ c ∧ c ≤ 'z' then some (c.toNat - 97)
  else if 'A' ≤ c ∧ c ≤ 'Z' then some (c.toNat - 65)
  else if '0' ≤ c ∧ c ≤ '9' then some (c.toNat - 22)
  else none

theorem digitOf?_digitChar {d : Nat} (h : d < 36) : digitOf? (digitChar d) = some d := by
  have all : ∀ e ∈ List.range 36, digitOf? (digitChar e) = some e := by decide
  exact all d (List.mem_range.2 h)

/-- The least value of a digit after which another one follows. -/
def threshold (position bias : Nat) : Nat :=
  if position ≤ bias then 1 else if bias + 26 ≤ position then 26 else position - bias

theorem threshold_pos (position bias : Nat) : 1 ≤ threshold position bias := by
  unfold threshold
  split
  · omega
  · split <;> omega

/-! ## The bias -/

/-- Divide by 35 until the number is at most 455, counting 36 for each division. -/
def shrink (delta count : Nat) : Nat × Nat :=
  if 455 < delta then shrink (delta / 35) (count + 36) else (delta, count)
termination_by delta
decreasing_by exact Nat.div_lt_self (by omega) (by omega)

/-- The bias after a number, with the count of characters so far. -/
def adapt (delta count : Nat) (first : Bool) : Nat :=
  let halved := if first then delta / 700 else delta / 2
  let (d, k) := shrink (halved + halved / count) 0
  k + 36 * d / (d + 38)

/-! ## Encoding -/

/-- The digits of a number. -/
def encodeNumber (bias position q : Nat) : List Char :=
  let t := threshold position bias
  if q < t then [digitChar q]
  else digitChar (t + (q - t) % (36 - t)) ::
    encodeNumber bias (position + 36) ((q - t) / (36 - t))
termination_by q
decreasing_by
  have h := threshold_pos position bias
  calc (q - threshold position bias) / (36 - threshold position bias)
      ≤ q - threshold position bias := Nat.div_le_self _ _
    _ < q := by omega

/-- What encoding has done so far. -/
structure Encoding where
  written : List Char
  delta : Nat
  bias : Nat
  handled : Nat

/-- Go past one character of the text while the character `point` is written. -/
def Encoding.pass (basic point : Nat) (e : Encoding) (c : Char) : Encoding :=
  if c.toNat < point then { e with delta := e.delta + 1 }
  else if c.toNat = point then
    { written := e.written ++ encodeNumber e.bias 36 e.delta
      delta := 0
      bias := adapt e.delta (e.handled + 1) (e.handled == basic)
      handled := e.handled + 1 }
  else e

/-- Write the characters `points`, the next possible one being `from`. -/
def Encoding.writeAll (text : List Char) (basic : Nat) :
    List Nat → Nat → Encoding → Encoding
  | [], _, e => e
  | point :: r, next, e =>
    let moved := { e with delta := e.delta + (point - next) * (e.handled + 1) }
    let passed := text.foldl (Encoding.pass basic point) moved
    writeAll text basic r (point + 1) { passed with delta := passed.delta + 1 }

/-- The points in increasing order, each once. -/
def insertPoint (n : Nat) : List Nat → List Nat
  | [] => [n]
  | m :: r => if n < m then n :: m :: r else if n = m then m :: r else m :: insertPoint n r

/-- The text in ASCII: its ASCII characters, and the others as numbers that `Encoding.writeAll`
writes; `decode?` undoes it. -/
def encode (text : List Char) : List Char :=
  let basic := text.filter fun c => c.toNat < 0x80
  let others := (text.filter fun c => 0x80 ≤ c.toNat).foldr (fun c l => insertPoint c.toNat l) []
  let e := Encoding.writeAll text basic.length others 0x80 ⟨[], 0, 72, basic.length⟩
  basic ++ (if basic.isEmpty then [] else ['-']) ++ e.written

/-! ## Decoding -/

/-- A number at the front of a text, added to `acc`. -/
def readNumber? (bias : Nat) : List Char → Nat → Nat → Nat → Option (Nat × List Char)
  | [], _, _, _ => none
  | c :: r, position, weight, acc =>
    match digitOf? c with
    | none => none
    | some d =>
      let t := threshold position bias
      if d < t then some (acc + d * weight, r)
      else readNumber? bias r (position + 36) (weight * (36 - t)) (acc + d * weight)

/-- Read numbers (`readNumber?`) and put the characters that they stand for in their
places.  Every number takes a character of the text, so that its length bounds their count. -/
def readPoints? : Nat → Nat → Nat → Nat → List Char → List Char → Option (List Char)
  | _, _, _, _, done, [] => some done
  | 0, _, _, _, _, _ => none
  | fuel + 1, bias, point, place, done, s =>
    match readNumber? bias s 36 1 place with
    | none => none
    | some (n, rest) =>
      let count := done.length + 1
      let next := point + n / count
      if next < 0xd800 ∨ (0xdfff < next ∧ next < 0x110000) then
        readPoints? fuel (adapt (n - place) count (place == 0)) next (n % count + 1)
          (done.insertIdx (n % count) (Char.ofNat next)) rest
      else none

/-- The text that is written in ASCII. -/
def decode? (s : List Char) : Option (List Char) :=
  let tail := (s.reverse.takeWhile (· != '-')).reverse
  let basic := s.take (s.length - tail.length - 1)
  if basic.any fun c => 0x80 ≤ c.toNat then none
  else readPoints? s.length 72 0x80 0 basic tail

end RestCase.Url.Punycode
