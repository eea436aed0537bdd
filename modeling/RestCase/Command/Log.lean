/-
# RestCase.Command.Log — the log of the program

The program tells what it does in lines, each of a `Command.Level`.  A filter is a list of
`Command.LogRule` and says which lines are shown: it gives levels to what speaks under a name, and
the longest name that fits counts (`Command.shows`).  A filter that shows a level shows every graver
one (`shows_of_le`).

Boundary: a `Command.LogLine` has its level and its text, with the colours that the program puts
into it (`Command.Colour`).  The time and the name that a terminal shows in front of a line belong
to no line.
-/
import RestCase.Chars.Basic
import RestCase.Chars.Search

namespace RestCase.Command

/-- The name under which the program speaks. -/
def programName : String := "stepwise"

/-! ## Lines -/

/-- The levels of lines, the gravest first. -/
inductive Level where
  | error | warn | info | debug | trace
  deriving DecidableEq, Repr

namespace Level

/-- Every level. -/
def all : List Level := [error, warn, info, debug, trace]

/-- The name of a level. -/
def name : Level → String
  | error => "ERROR"
  | warn => "WARN"
  | info => "INFO"
  | debug => "DEBUG"
  | trace => "TRACE"

/-- The place of a level, counted from one. -/
def rank : Level → Nat
  | error => 1
  | warn => 2
  | info => 3
  | debug => 4
  | trace => 5

end Level

/-- A line of the log. -/
structure LogLine where
  level : Level
  text : String
  deriving DecidableEq, Repr

/-- The line as it is shown. -/
def LogLine.shown (l : LogLine) : String := l.level.name ++ " " ++ l.text ++ "\n"

/-! ## Colours -/

/-- The colours in which a terminal shows parts of lines, by `paint`. -/
inductive Colour where
  | red | green | yellow
  deriving DecidableEq, Repr

namespace Colour

/-- The number by which a terminal knows the colour. -/
def code : Colour → String
  | red => "31"
  | green => "32"
  | yellow => "33"

/-- A text in the colour; behind it the terminal goes back to its own. -/
def paint (c : Colour) (text : String) : String :=
  "\x1b[" ++ c.code ++ "m" ++ text ++ "\x1b[0m"

end Colour

/-! ## Filters -/

/-- Lines up to a rank are shown of what speaks under a name, or under one that begins with it. -/
structure LogRule where
  speaker : String
  upTo : Nat
  deriving DecidableEq, Repr

/-- The rank that a word gives: a level by its name, or by its place; nought shows nothing. -/
def rankOf? (word : String) : Option Nat :=
  match ["0", "1", "2", "3", "4", "5"].findIdx? (· == word) with
  | some n => some n
  | none =>
    if Text.sameIgnoringCase word "off" then some 0
    else (Level.all.find? fun l => Text.sameIgnoringCase word l.name).map Level.rank

/-- The name of what speaks. -/
def isSpeaker (word : String) : Bool :=
  !word.isEmpty && word.toList.all fun c => Chars.isLetter c || Chars.isDigit c ||
    c == '_' || c == ':' || c == '-'

/-- The rule that a text stands for: a rank for all, or a name with a rank; without one everything
is shown. -/
def ruleOf? (text : String) : Option LogRule :=
  match rankOf? text with
  | some n => some ⟨"", n⟩
  | none =>
    let name := text.toList.takeWhile (· != '=')
    let speaker := String.ofList name
    if !isSpeaker speaker then none
    else
      let word := String.ofList (text.toList.drop (name.length + 1))
      if word.isEmpty then some ⟨speaker, Level.trace.rank⟩
      else (rankOf? word).map fun n => ⟨speaker, n⟩

/-- The rules of a filter, which stand between commas (`ruleOf?`); without one only errors are
shown. -/
def rulesOf (text : String) : List LogRule :=
  match (text.toList.splitOnP (· == ',')).filterMap fun s => ruleOf? (String.ofList s) with
  | [] => [⟨"", Level.error.rank⟩]
  | rules => rules

/-- The later one of two rules that counts for the program, the longer name first. -/
def preferred (best : Option LogRule) (r : LogRule) : Option LogRule :=
  if !Text.startsWith r.speaker programName then best
  else match best with
    | none => some r
    | some b => if b.speaker.length ≤ r.speaker.length then some r else some b

/-- A filter shows lines of the program on a level: the rule that is `preferred` among those for
the program has at least its rank. -/
def shows (rules : List LogRule) (level : Level) : Bool :=
  match rules.foldl preferred none with
  | some r => level.rank ≤ r.upTo
  | none => false

theorem shows_of_le {rules : List LogRule} {a b : Level} (hab : a.rank ≤ b.rank)
    (h : shows rules b = true) : shows rules a = true := by
  unfold shows at h ⊢
  split at h
  · simp only [decide_eq_true_eq] at h ⊢
    omega
  · cases h

end RestCase.Command
