/-
# RestCase.Pattern.Basic — patterns and what they match

A `Pattern` denotes a relation between places of one text (`Pattern.reach`): it leads from a place
to every place at which a match begun at the first one can end.  Only whether there is a match is
ever asked (`Pattern.found`, `Pattern.matchesWhole`), so a pattern has no captures and no preference
among matches, and it is applied to a whole set of places at once.  A set is a list with strictly
decreasing offsets, joined and parted by `Place.union` and `Place.minus`.

What a character has to be is a `CharSet`, and its members depend on the `Characters` of the engine.
-/
import RestCase.Pattern.CharSet

namespace RestCase

namespace Pattern

/-! ## Places -/

/-- A place in a text: how many characters stand before it, the last of them, and the text ahead. -/
structure Place where
  offset : Nat
  before : Option Char
  after : List Char
  deriving DecidableEq, Repr

namespace Place

/-- The start of a text. -/
def start (text : List Char) : Place := ⟨0, none, text⟩

/-- The place one character on. -/
def next? (p : Place) : Option Place :=
  match p.after with
  | [] => none
  | c :: r => some ⟨p.offset + 1, some c, r⟩

/-- The places from here to the end of the text, the last of them first, ahead of others. -/
def pushFrom (offset : Nat) (before : Option Char) (earlier : List Place) : List Char → List Place
  | [] => ⟨offset, before, []⟩ :: earlier
  | c :: r => pushFrom (offset + 1) (some c) (⟨offset, before, c :: r⟩ :: earlier) r

/-- The set of every place of a text. -/
def all (text : List Char) : List Place := pushFrom 0 none [] text

/-- The places of either set. -/
def union : List Place → List Place → List Place
  | [], t => t
  | p :: s, t =>
    t.takeWhile (fun q => p.offset < q.offset)
      ++ p :: union s (t.dropWhile fun q => p.offset ≤ q.offset)

/-- The places of the first set that are not in the second. -/
def minus : List Place → List Place → List Place
  | [], _ => []
  | p :: s, t =>
    let rest := t.dropWhile fun q => p.offset < q.offset
    if rest.head?.any (·.offset == p.offset) then minus s rest else p :: minus s rest

end Place

/-! ## Looking around -/

/-- The kinds of place between the characters of words. -/
inductive WordEdge where
  | either | neither | start | finish | startHalf | finishHalf
  deriving DecidableEq, Repr

/-- A condition on a place. -/
inductive Look where
  | textStart
  | textEnd
  | lineStart (returns : Bool)
  | lineEnd (returns : Bool)
  | word (edge : WordEdge) (ascii : Bool)
  deriving DecidableEq, Repr

namespace Look

variable [Characters]

/-- A character of a word, in ASCII or in all scripts. -/
def isWord (ascii : Bool) (c : Char) : Bool :=
  if ascii then c.toNat < 128 && Chars.isWordChar c else Characters.isWord c

/-- The condition holds at a place.  Where carriage returns end lines too, the two characters of a
return and a line feed are never parted. -/
def holds (l : Look) (p : Place) : Bool :=
  match l with
  | textStart => p.before.isNone
  | textEnd => p.after.isEmpty
  | lineStart false => p.before.isNone || p.before == some '\n'
  | lineEnd false => p.after.isEmpty || p.after.head? == some '\n'
  | lineStart true => p.before.isNone || p.before == some '\n'
      || (p.before == some '\r' && p.after.head? != some '\n')
  | lineEnd true => p.after.isEmpty || p.after.head? == some '\r'
      || (p.after.head? == some '\n' && p.before != some '\r')
  | word edge ascii =>
    let left := p.before.any (isWord ascii)
    let right := p.after.head?.any (isWord ascii)
    match edge with
    | .either => left != right
    | .neither => left == right
    | .start => !left && right
    | .finish => left && !right
    | .startHalf => !left
    | .finishHalf => !right

end Look

end Pattern

/-- A pattern. -/
inductive Pattern where
  | empty
  | chars (set : Pattern.CharSet)
  | look (condition : Pattern.Look)
  | seq (a b : Pattern)
  | alt (a b : Pattern)
  | repeated (a : Pattern) (least : Nat) (most : Option Nat)
  deriving DecidableEq, Repr

namespace Pattern

variable [Characters]

/-! ## Matching -/

/-- Exactly `n` steps from a set of places; no place stays no place. -/
def exactly (step : List Place → List Place) : Nat → List Place → List Place
  | 0, places => places
  | _ + 1, [] => []
  | n + 1, places => exactly step n (step places)

/-- The places reached by at most `n` steps: `fresh` are those just reached, `seen` all so far. -/
def atMost (step : List Place → List Place) : Nat → List Place → List Place → List Place
  | 0, _, seen => seen
  | n + 1, fresh, seen =>
    match Place.minus (step fresh) seen with
    | [] => seen
    | more => atMost step n more (Place.union more seen)

/-- The most characters that stand ahead of a place of the set. -/
def ahead (places : List Place) : Nat := places.foldl (fun n p => max n p.after.length) 0

/-- The places that a pattern leads to from the places of a set.  Without an upper bound a
repetition (`atMost`) can reach something new only as many times as the text has characters
`ahead`. -/
def reach : Pattern → List Place → List Place
  | empty, places => places
  | chars set, places => places.filterMap fun p => p.next?.filter fun q => q.before.any set.mem
  | look condition, places => places.filter condition.holds
  | seq a b, places => reach b (reach a places)
  | alt a b, places => Place.union (reach a places) (reach b places)
  | repeated a least most, places =>
    let first := exactly (reach a) least places
    match most with
    | some m => atMost (reach a) (m - least) first first
    | none => atMost (reach a) (ahead first + 1) first first

/-- The pattern matches some part of the text: it leads somewhere from some of `Place.all`. -/
def found (p : Pattern) (text : List Char) : Bool :=
  !(reach p (Place.all text)).isEmpty

/-- The pattern matches the text as a whole: from its start it leads (`reach`) to a place with
nothing ahead. -/
def matchesWhole (p : Pattern) (text : List Char) : Bool :=
  (reach p [Place.start text]).any fun place => place.after.isEmpty

/-- How many characters and conditions the pattern has when its repetitions are written out;
`Engine.standard` reckons its program by it. -/
def size : Pattern → Nat
  | empty => 1
  | chars _ => 1
  | look _ => 1
  | seq a b => size a + size b
  | alt a b => size a + size b + 1
  | repeated a least most => size a * max 1 (max least (most.getD 1)) + 1

end Pattern

end RestCase
