/-
# RestCase.Chars.Runs — runs of code points

A property of characters is kept as a list of runs (`Chars.Run`), and a list of runs is written as a
text: each word is one code point `41`, an interval `41-5a`, or every second code point of one
`100-12e/2`, in hexadecimal.  `Chars.runs` reads such a text, and `Chars.Run.mem_iff` says what a
run holds: the points of its interval that its step reaches.
-/
import RestCase.Chars.Digits

namespace RestCase.Chars

/-- The code points `first`, `first + step`, … up to `last`. -/
structure Run where
  first : Nat
  last : Nat
  step : Nat
  deriving DecidableEq, Repr

namespace Run

/-- The run holds a code point. -/
def mem (r : Run) (n : Nat) : Bool :=
  r.first ≤ n && n ≤ r.last && (n - r.first) % r.step == 0

theorem mem_iff (r : Run) (n : Nat) :
    r.mem n = true ↔ r.first ≤ n ∧ n ≤ r.last ∧ (n - r.first) % r.step = 0 := by
  simp [mem, and_assoc]

/-- The value of a hexadecimal text. -/
def ofHex (s : List Char) : Nat := s.foldl (fun n c => n * 16 + hexValue c) 0

/-- The run that a word denotes. -/
def ofWord (word : List Char) : Run :=
  let first := word.takeWhile isHexDigit
  match word.dropWhile isHexDigit with
  | '-' :: r =>
    let last := r.takeWhile isHexDigit
    match r.dropWhile isHexDigit with
    | '/' :: step => ⟨ofHex first, ofHex last, ofHex step⟩
    | _ => ⟨ofHex first, ofHex last, 1⟩
  | _ => ⟨ofHex first, ofHex first, 1⟩

end Run

/-- The words of a text between single spaces. -/
def words (s : List Char) : List (List Char) := s.splitOnP (· == ' ')

/-- The runs that the lines of a text denote. -/
def runs (lines : List String) : List Run := lines.flatMap fun l => (words l.toList).map Run.ofWord

/-- Some run holds the character. -/
def inRuns (l : List Run) (c : Char) : Bool := l.any (·.mem c.toNat)

end RestCase.Chars
