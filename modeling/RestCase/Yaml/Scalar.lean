/-
# RestCase.Yaml.Scalar — the text of scalars

A scalar is written in one of four ways: quoted with apostrophes or with double quotes
(`Yaml.readQuoted`), as a block under an indicator (`Yaml.readBlock`), or plain (`Yaml.readPlain`).
In all of them but literal blocks the end of a line *folds*: it becomes a space, or, when blank
lines follow, as many line feeds as there are blank lines (`Space.folded`).
-/
import RestCase.Chars.Digits
import RestCase.Yaml.Cursor

namespace RestCase.Yaml

/-! ## Folding -/

/-- What has been read of the space between two words: the gaps, whether the line ended, the end of
the line, and the ends of the blank lines after it. -/
structure Space where
  gaps : List Char
  lineEnded : Bool
  ending : List Char
  blankLines : List Char

namespace Space

/-- No space. -/
def none : Space := ⟨[], false, [], []⟩

/-- The end of the line and the blank lines after it, folded. -/
def folded (s : Space) : List Char :=
  if s.ending.head? = some '\n' then if s.blankLines.isEmpty then [' '] else s.blankLines
  else s.ending ++ s.blankLines

/-- What the space stands for between two words. -/
def text (s : Space) : List Char := if s.lineEnded then s.folded else s.gaps

end Space

/-- Read the space at a cursor.  Where `margin` is given, a tab in the first columns of a further
line is refused. -/
def readSpace (margin : Option Int) : Nat → Space → Cursor → Option (Space × Cursor)
  | 0, s, c => some (s, c)
  | fuel + 1, s, c =>
    match c.rest with
    | [] => some (s, c)
    | x :: _ =>
      if isGap x then
        if s.lineEnded && x == '\t' && margin.any fun m => (c.column : Int) < m then none
        else if s.lineEnded then readSpace margin fuel s c.step
        else readSpace margin fuel { s with gaps := s.gaps ++ [x] } c.step
      else if isBreak x then
        if s.lineEnded then
          readSpace margin fuel { s with blankLines := s.blankLines ++ c.lineEnd } c.stepLine
        else
          readSpace margin fuel
            { s with gaps := [], lineEnded := true, ending := c.lineEnd } c.stepLine
      else some (s, c)

/-! ## Quoted scalars -/

/-- The characters that a backslash and one character stand for. -/
def shortEscape? : Char → Option Char
  | '0' => some '\x00'
  | 'a' => some '\x07'
  | 'b' => some '\x08'
  | 't' | '\t' => some '\t'
  | 'n' => some '\n'
  | 'v' => some '\x0B'
  | 'f' => some '\x0C'
  | 'r' => some '\r'
  | 'e' => some '\x1B'
  | ' ' => some ' '
  | '"' => some '"'
  | '/' => some '/'
  | '\\' => some '\\'
  | 'N' => some '\u0085'
  | '_' => some '\u00A0'
  | 'L' => some '\u2028'
  | 'P' => some '\u2029'
  | _ => none

/-- How many hexadecimal digits follow a letter that takes a code point. -/
def escapeWidth? : Char → Option Nat
  | 'x' => some 2
  | 'u' => some 4
  | 'U' => some 8
  | _ => none

/-- The character of an escape, its backslash passed, and the cursor after it. -/
def readEscape (c : Cursor) : Option (Char × Cursor) :=
  match c.rest with
  | [] => none
  | x :: r =>
    match shortEscape? x with
    | some y => some (y, c.step)
    | none =>
      (escapeWidth? x).bind fun n =>
        let digits := r.take n
        if digits.length = n ∧ digits.all Chars.isHexDigit = true then
          (Chars.ofRadix? 16 digits).bind fun v =>
            if v.isValidChar then some (Char.ofNat v, c.steps (n + 1)) else none
        else none

/-- Read the words of a quoted scalar up to the next gap, end of line or closing quote.  The last
part of the answer tells whether an escaped end of line was read. -/
def readQuotedWord (single : Bool) : Nat → List Char → Cursor →
    Option (List Char × Cursor × Bool)
  | 0, out, c => some (out, c, false)
  | fuel + 1, out, c =>
    match c.rest with
    | [] => some (out, c, false)
    | x :: r =>
      if isGap x || isBreak x then some (out, c, false)
      else if single && x == '\'' then
        -- an apostrophe is written twice
        if r.head? == some '\'' then readQuotedWord single fuel ('\'' :: out) (c.steps 2)
        else some (out, c, false)
      else if !single && x == '"' then some (out, c, false)
      else if !single && x == '\\' then
        match r with
        | y :: _ =>
          if isBreak y then some (out, c.step.stepLine, true)
          else (readEscape c.step).bind fun (z, c') => readQuotedWord single fuel (z :: out) c'
        | [] => none
      else readQuotedWord single fuel (x :: out) c.step

/-- Read a quoted scalar, its opening quote passed: the text, last character first. -/
def readQuotedFrom (single : Bool) : Nat → List Char → Cursor → Option (List Char × Cursor)
  | 0, _, _ => none
  | fuel + 1, out, c =>
    -- a mark of a document ends the text, so that the quote is never closed
    if c.column = 0 ∧ (isDocumentMark '-' c.rest || isDocumentMark '.' c.rest) = true then none
    else if c.rest.isEmpty then none
    else
      (readQuotedWord single (c.rest.length + 1) out c).bind fun (out, c, escaped) =>
        if !escaped && c.sees (if single then '\'' else '"') then some (out, c.step)
        else
          -- the end of line that was escaped counts as passed, but stands for nothing
          (readSpace none (c.rest.length + 1) { Space.none with lineEnded := escaped } c).bind
            fun (s, c) => readQuotedFrom single fuel (s.text.reverse ++ out) c

/-- Read a quoted scalar, its opening quote passed. -/
def readQuoted (single : Bool) (c : Cursor) : Option (String × Cursor) :=
  (readQuotedFrom single (c.rest.length + 1) [] c).map fun (out, c) =>
    (String.ofList out.reverse, c)

/-! ## Plain scalars -/

/-- A character that ends a plain scalar inside brackets. -/
def isFlowMark (c : Char) : Bool := c == ',' || c == '[' || c == ']' || c == '\x7b' || c == '\x7d'

/-- Read one word of a plain scalar; `flow` tells whether it stands inside brackets. -/
def readPlainWord (flow : Bool) : Nat → List Char → Cursor → Option (List Char × Cursor)
  | 0, out, c => some (out, c)
  | fuel + 1, out, c =>
    match c.rest with
    | [] => some (out, c)
    | x :: r =>
      if isGap x || isBreak x then some (out, c)
      else if flow && x == ':' && r.head?.any fun y => isFlowMark y || y == '?' then none
      else if x == ':' && endsWord r then some (out, c)
      else if flow && isFlowMark x then some (out, c)
      else readPlainWord flow fuel (x :: out) c.step

/-- What the last word of a plain scalar has left: the text, the cursor, and whether a line ended
after it. -/
structure PlainEnd where
  text : List Char
  cursor : Cursor
  lineEnded : Bool

/-- Read a plain scalar word by word: `space` is what was read since the last word, `margin` the
first column that still belongs to the scalar outside brackets. -/
def readPlainFrom (flow : Bool) (margin : Int) : Nat → List Char → Space → Cursor →
    Option PlainEnd
  | 0, _, _, _ => none
  | fuel + 1, out, space, c =>
    if c.column = 0 ∧ (isDocumentMark '-' c.rest || isDocumentMark '.' c.rest) = true then
      some ⟨out, c, space.lineEnded⟩
    -- between words a hash begins a comment
    else if c.sees '#' then some ⟨out, c, space.lineEnded⟩
    else
      (readPlainWord flow (c.rest.length + 1) [] c).bind fun (word, c') =>
        -- the space counts only once another word follows it
        let (out, space) :=
          if word.isEmpty then (out, space)
          else (word ++ (space.text.reverse ++ out), Space.none)
        match c'.rest with
        | [] => some ⟨out, c', space.lineEnded⟩
        | x :: _ =>
          if !(isGap x || isBreak x) then some ⟨out, c', space.lineEnded⟩
          else
            (readSpace (some margin) (c'.rest.length + 1) space c').bind fun (space, c'') =>
              if !flow && (c''.column : Int) < margin then some ⟨out, c'', space.lineEnded⟩
              else readPlainFrom flow margin fuel out space c''

/-- Read a plain scalar: the text, the cursor after it, and whether a line ended after it. -/
def readPlain (flow : Bool) (margin : Int) (c : Cursor) : Option (String × Cursor × Bool) :=
  (readPlainFrom flow margin (c.rest.length + 1) [] Space.none c).map fun e =>
    (String.ofList e.text.reverse, e.cursor, e.lineEnded)

/-! ## Block scalars -/

/-- What happens to the ends of lines at the end of a block. -/
inductive Chomping where
  | strip | clip | keep
  deriving DecidableEq, Repr

/-- The sign after the indicator of a block. -/
def chomping? (c : Cursor) : Option Chomping :=
  match c.rest with
  | '+' :: _ => some .keep
  | '-' :: _ => some .strip
  | _ => none

/-- The digit after the indicator of a block. -/
def indentDigit? (c : Cursor) : Option Nat :=
  match c.rest with
  | x :: _ => if Chars.isDigit x then some (Chars.digitValue x) else none
  | [] => none

/-- The header of a block: how its end is treated and how far it is indented, in either order. -/
def readBlockHeader (c : Cursor) : Option (Chomping × Option Nat × Cursor) :=
  match chomping? c with
  | some k =>
    match indentDigit? c.step with
    | some 0 => none
    | some n => some (k, some n, c.steps 2)
    | none => some (k, none, c.step)
  | none =>
    match indentDigit? c with
    | some 0 => none
    | some n =>
      match chomping? c.step with
      | some k => some (k, some n, c.steps 2)
      | none => some (.clip, some n, c.step)
    | none => some (.clip, none, c)

/-- The blank lines of a block: their ends, the widest of them, and the cursor after them.  Where
the indentation is not known yet, every space belongs to a blank line. -/
def readBlankLines (indent : Option Nat) : Nat → Nat → List Char → Cursor →
    Option (Nat × List Char × Cursor)
  | 0, widest, out, c => some (widest, out, c)
  | fuel + 1, widest, out, c =>
    -- spaces beyond the indentation belong to the text
    let room := match indent with
      | some n => n - c.column
      | none => c.rest.length
    let c := c.steps (min room (c.rest.takeWhile (· == ' ')).length)
    let widest := max widest c.column
    if (indent.all fun n => c.column < n) && c.sees '\t' then none
    else match c.rest with
      | x :: _ =>
        if isBreak x then readBlankLines indent fuel widest (out ++ c.lineEnd) c.stepLine
        else some (widest, out, c)
      | [] => some (widest, out, c)

/-- Read the lines of a block: `ending` is the end of the last line, `blanks` the ends of the blank
lines after it, and `leadingGap` tells whether the last line began with a gap. -/
def readBlockLines (literal : Bool) (indent : Nat) : Nat → List Char → List Char → List Char →
    Bool → Cursor → Option (List Char × List Char × List Char × Cursor)
  | 0, out, ending, blanks, _, c => some (out, ending, blanks, c)
  | fuel + 1, out, ending, blanks, leadingGap, c =>
    if c.column ≠ indent ∨ c.rest.isEmpty = true then some (out, ending, blanks, c)
    else
      let gap := c.rest.head?.any isGap
      let joined :=
        if !literal && ending.head? == some '\n' && !leadingGap && !gap then
          -- blank lines in between stand for the breaks themselves
          if blanks.isEmpty then [' '] else []
        else ending
      let (line, c') := c.takeWhile fun x => !isBreak x
      let out := line.reverse ++ (blanks.reverse ++ (joined.reverse ++ out))
      let c'' := c'.stepLine
      (readBlankLines (some indent) (c''.rest.length + 1) 0 [] c'').bind fun (_, blanks, c''') =>
        readBlockLines literal indent fuel out c'.lineEnd blanks gap c'''

/-- Read a block scalar, its indicator passed: `readBlockHeader`, `readBlankLines`,
`readBlockLines`; `parent` is the indentation around it. -/
def readBlock (literal : Bool) (parent : Int) (c : Cursor) : Option (String × Cursor) :=
  (readBlockHeader c).bind fun (chomping, increment, c) =>
    let c := c.skipWhile isGap
    let c := if c.sees '#' then c.skipWhile fun x => !isBreak x else c
    if !endsLine c.rest then none
    else
      let c := c.stepLine
      let known := increment.map fun n => if 0 ≤ parent then parent.toNat + n else n
      (readBlankLines known (c.rest.length + 1) 0 [] c).bind fun (widest, blanks, c) =>
        -- as far as the widest of the first lines, but further than what is around it
        let indent := known.getD (max widest (max (parent + 1).toNat 1))
        (readBlockLines literal indent (c.rest.length + 1) [] [] blanks false c).map
          fun (out, ending, blanks, c) =>
            let text := out.reverse ++ (match chomping with
              | .strip => []
              | .clip => ending
              | .keep => ending ++ blanks)
            (String.ofList text, c)

end RestCase.Yaml
