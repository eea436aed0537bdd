/-
# RestCase.Pattern.Engine — what the notation of patterns leaves to an engine

The notation fixes how a text is taken apart (`RestCase.Pattern.Reader`) and what its parts match
(`Pattern.reach`).  Two things it leaves open: the edition of the character database (`Characters`),
and which patterns are too large to be used, as this depends on the program that an engine makes of
a pattern.  An `Engine` settles both.  All that reads a pattern takes one as a parameter, and
nothing is assumed of it.

`Engine.standard` is the engine of a run for which no other is named.  Its boundary: it takes its
characters from `Characters.standard`, and it reckons the same number of bytes for each character
and each condition of a pattern, where a compiler makes more or fewer states of them.
-/
import RestCase.Pattern.Basic

namespace RestCase.Pattern

/-- What is left open by the notation of patterns: `Characters`, and whether the program for a
pattern `fits`. -/
class Engine extends Characters where
  /-- The program for a text that denotes a pattern is not too large. -/
  fits : List Char → Pattern → Bool

namespace Engine

/-- The bytes that a program may take: ten mebibytes, as by default. -/
def programLimit : Nat := 10 * 1024 * 1024

/-- The bytes that are reckoned for a character or a condition of a pattern. -/
def stateBytes : Nat := 32

/-- The engine of a run for which no other is named: `Characters.standard`, and `stateBytes` for
each unit of `Pattern.size`. -/
instance standard : Engine where
  toCharacters := .standard
  fits _ p := p.size * stateBytes ≤ programLimit

end Engine

end RestCase.Pattern
