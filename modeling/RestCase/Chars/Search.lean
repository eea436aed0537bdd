/-
# RestCase.Chars.Search — finding one text inside another

Occurrences are found from left to right and do not overlap (`Chars.occurrences`).
`Chars.splitFirst?` is the workhorse: it cuts a text around the first occurrence of a needle, and
both halves together with the needle give the text back (`splitFirst?_eq_some`).  What these
searches find is said without a search in `RestCase.Proofs.Chars.Search` and
`RestCase.Proofs.Chars.Occurrences`.
-/
import RestCase.Chars.Basic

namespace RestCase.Chars

/-! ## The first occurrence -/

/-- The text before and after the first occurrence of `needle`, if there is one;
`splitFirst?_length` makes recursions on the second part end. -/
def splitFirst? (needle : List Char) : List Char → Option (List Char × List Char)
  | [] => if needle.isEmpty then some ([], []) else none
  | c :: r =>
    if needle.isPrefixOf (c :: r) then some ([], (c :: r).drop needle.length)
    else (splitFirst? needle r).map fun (a, b) => (c :: a, b)

theorem splitFirst?_eq_some {needle s a b : List Char} (h : splitFirst? needle s = some (a, b)) :
    s = a ++ needle ++ b := by
  induction s generalizing a b with
  | nil =>
    simp only [splitFirst?] at h
    split at h
    · next hn => simp_all [List.isEmpty_iff]
    · simp at h
  | cons c r ih =>
    simp only [splitFirst?] at h
    split at h
    · next hp =>
      obtain ⟨rfl, rfl⟩ : [] = a ∧ (c :: r).drop needle.length = b := by simpa using h
      obtain ⟨t, ht⟩ := List.isPrefixOf_iff_prefix.1 hp
      simp [← ht]
    · obtain ⟨⟨a', b'⟩, hr, he⟩ := Option.map_eq_some_iff.1 h
      obtain ⟨rfl, rfl⟩ : c :: a' = a ∧ b' = b := by simpa using he
      simp [ih hr]

/-- Cutting out a non-empty needle leaves a shorter rest. -/
theorem splitFirst?_length {needle s a b : List Char} (h : splitFirst? needle s = some (a, b)) :
    a.length + needle.length + b.length = s.length := by
  have := congrArg List.length (splitFirst?_eq_some h)
  simp only [List.length_append] at this
  omega

/-- `needle` occurs in the text. -/
def contains (needle s : List Char) : Bool := (splitFirst? needle s).isSome

/-- The rest of the text after a leading `head`, if it begins so. -/
def afterPrefix? (head s : List Char) : Option (List Char) :=
  if head.isPrefixOf s then some (s.drop head.length) else none

theorem afterPrefix?_eq_some {head s r : List Char} :
    afterPrefix? head s = some r ↔ s = head ++ r := by
  unfold afterPrefix?
  constructor
  · intro h
    split at h
    · next hp =>
      obtain ⟨t, rfl⟩ := List.isPrefixOf_iff_prefix.1 hp
      simpa using h
    · simp at h
  · rintro rfl
    simp

/-! ## All occurrences -/

/-- Positions of the occurrences of `needle`, counting from `pos`; the first `skip` characters
belong to an occurrence that was already counted. -/
def occurrencesFrom (needle : List Char) : Nat → Nat → List Char → List Nat
  | _, _, [] => []
  | skip + 1, pos, _ :: r => occurrencesFrom needle skip (pos + 1) r
  | 0, pos, c :: r =>
    if needle.isPrefixOf (c :: r) then
      pos :: occurrencesFrom needle (needle.length - 1) (pos + 1) r
    else occurrencesFrom needle 0 (pos + 1) r

/-- Positions of the occurrences of `needle`, from left to right and without overlap
(`occurrencesFrom`). -/
def occurrences (needle s : List Char) : List Nat := occurrencesFrom needle 0 0 s

end RestCase.Chars

namespace RestCase.Text

/-- `Chars.contains` on strings. -/
def contains (needle s : String) : Bool := Chars.contains needle.toList s.toList

/-- `s` begins with `head`. -/
def startsWith (head s : String) : Bool := head.toList.isPrefixOf s.toList

/-- `s` ends with `tail`. -/
def endsWith (tail s : String) : Bool := tail.toList.isSuffixOf s.toList

/-- The rest of the string after a leading `head`, if it begins so. -/
def afterPrefix? (head s : String) : Option String :=
  (Chars.afterPrefix? head.toList s.toList).map String.ofList

end RestCase.Text
