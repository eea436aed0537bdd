/-
# RestCase.Proofs.Pattern.WholeMatch — matching a text as a whole

A pattern that has to match a text from one end to the other is read as a text of its own, between
`^(?:` and `)$` (`ofWholeChars?`).  This is the pattern itself, held to both ends
(`ofWholeChars?_eq_some_iff`, `found_anchored`), unless its text gets out of the group that is put
around it.  There are two ways out: a closing parenthesis that the text does not open itself
(`closesEarly`), and a comment that is still open at its end and takes in what closes the group
(`endsInComment`).

The anchored pattern also has to keep within the limits that the pattern keeps within by itself.
`FitsAnchored` says what that takes: room for the two levels that the group and the anchors add, and
a program that the engine does not find too large.

`check_matches_iff` says when an assertion that a value matches a pattern passes, for every
`Engine`: whatever character database it has, whichever properties it knows by name, and whatever it
finds too large.  `exists_patterns_out_of_group` has a pattern on either way out.
-/
import RestCase.Proofs.Pattern.Fuel
import RestCase.Verification.Check

namespace RestCase

namespace Pattern

open Reader

section Enclosed

variable [Engine]

/-! ## Getting out of the group -/

/-- What reading a text as a pattern comes to, with the text that is left behind the pattern. -/
def readText (text : List Char) : Option (Gathered Pattern × Reading) :=
  readAlternatives (3 * text.length + 3) ⟨.initial, [], text⟩

/-- The text has a pattern in front of a closing parenthesis that nothing in it opens: `readText`
leaves something of it. -/
def closesEarly (text : List Char) : Bool :=
  match readText text with
  | some (_, r) => !r.rest.isEmpty
  | none => false

/-- The text is read to its end as a pattern, and so is it with `)$` behind it: a comment is open
there. -/
def endsInComment (text : List Char) : Bool :=
  match readText text, readText (text ++ [')', '$']) with
  | some (_, r), some (_, r') => r.rest.isEmpty && r'.rest.isEmpty
  | _, _ => false

theorem written?_eq (text : List Char) :
    written? text = match readText text with
      | some (q, r) =>
        if r.rest.isEmpty && q.whole.depth ≤ nestLimit then some q.whole else none
      | none => none :=
  rfl

/-! ## The enclosed text -/

/-- The pattern, held to both ends of a text by a `Look` at each. -/
def anchored (q : Pattern) : Pattern := .seq (.look .textStart) (.seq q (.look .textEnd))

/-- With an anchor at each end the pattern keeps within the limits of the engine (`nestLimit`,
`Engine.fits`): the group around it and the sequence of the group and the anchors are a level
each. -/
structure FitsAnchored (text : List Char) (q : Nested Pattern) : Prop where
  nests : q.depth + 2 ≤ nestLimit
  fits : Engine.fits (enclosedText text) (anchored q.value) = true

/-- Behind `^` stands the group, whose alternatives are read up to the parenthesis that closes
it. -/
theorem readSequence_anchored (n : Nat) (text : List Char) :
    readSequence (n + 3) [] ⟨.initial, [], '^' :: '(' :: '?' :: ':' :: text⟩
      = ((readAlternatives n ⟨.initial, [], text⟩).bind fun p => (expect ')' p.2).bind fun u =>
          some ((⟨some p.1.value, p.1.whole.depth + 1⟩ : Item),
            { u.2 with flags := .initial })).bind fun p =>
        readSequence (n + 1) [p.1, ⟨some (.look .textStart), 0⟩] p.2 := by
  have hstart : readSequence (n + 3) [] ⟨.initial, [], '^' :: '(' :: '?' :: ':' :: text⟩
      = readSequence (n + 2) [⟨some (.look .textStart), 0⟩]
        ⟨.initial, [], '(' :: '?' :: ':' :: text⟩ := rfl
  have hgroup : readSequence (n + 2) [⟨some (.look .textStart), 0⟩]
      ⟨.initial, [], '(' :: '?' :: ':' :: text⟩
      = (readGroup (n + 1) ⟨.initial, [], '(' :: '?' :: ':' :: text⟩).bind fun p =>
          readSequence (n + 1) [p.1, ⟨some (.look .textStart), 0⟩] p.2 := rfl
  rw [hstart, hgroup]
  rfl

theorem readText_enclosed_eq (text : List Char) :
    readText (enclosedText text)
      = readAlternatives (3 * text.length + 17 + 4)
        ⟨.initial, [], '^' :: '(' :: '?' :: ':' :: (text ++ [')', '$'])⟩ := by
  have htext : enclosedText text = '^' :: '(' :: '?' :: ':' :: (text ++ [')', '$']) := by
    simp [enclosedText]
  have hfuel : 3 * ('^' :: '(' :: '?' :: ':' :: (text ++ [')', '$'])).length + 3
      = 3 * text.length + 17 + 4 := by
    simp only [List.length_append, List.length_cons, List.length_nil]
    omega
  rw [htext, readText, hfuel]

theorem readAlternatives_append_eq (text : List Char) :
    readAlternatives (3 * text.length + 17) ⟨.initial, [], text ++ [')', '$']⟩
      = readText (text ++ [')', '$']) := by
  refine agrees_readAlternatives ?_ ?_ <;> simp only [List.length_append, List.length_cons,
    List.length_nil] <;> omega

/-- Where the text is read up to what encloses it, the `enclosedText` is read to its end, and it
is two levels deeper. -/
theorem written?_enclosed_of_some {text : List Char} {q : Gathered Pattern} {f : Flags}
    {names : List (List Char)}
    (h : readText (text ++ [')', '$']) = some (q, ⟨f, names, [')', '$']⟩)) :
    written? (enclosedText text) =
      if q.whole.depth + 2 ≤ nestLimit then some ⟨anchored q.value, q.whole.depth + 2⟩
      else none := by
  have hread : readText (enclosedText text) =
      some (⟨anchored q.value, 1, q.whole.depth + 2⟩, ⟨.initial, names, []⟩) := by
    rw [← readAlternatives_append_eq] at h
    rw [readText_enclosed_eq]
    change (readSequence (3 * text.length + 17 + 3) [] _).bind _ = _
    rw [readSequence_anchored, h]
    rfl
  have hwhole : Gathered.whole ⟨anchored q.value, 1, q.whole.depth + 2⟩
      = ⟨anchored q.value, q.whole.depth + 2⟩ := rfl
  rw [written?_eq, hread]
  simp only [hwhole, List.isEmpty_nil, Bool.true_and, decide_eq_true_eq]

/-- Where the text is refused or read beyond the parenthesis that closes the group, the enclosed
text is no pattern. -/
theorem written?_enclosed_eq_none {text : List Char}
    (h : ∀ q r, readText (text ++ [')', '$']) = some (q, r) → r.rest <:+ ['$']) :
    written? (enclosedText text) = none := by
  have hread : readText (enclosedText text) = none := by
    rw [readText_enclosed_eq]
    change (readSequence (3 * text.length + 17 + 3) [] _).bind _ = _
    rw [readSequence_anchored, readAlternatives_append_eq]
    rcases hread : readText (text ++ [')', '$']) with _ | ⟨q, f, names, rest⟩
    · rfl
    · have hrest : rest = ['$'] ∨ rest = [] := by
        simpa [List.suffix_cons_iff] using h q ⟨f, names, rest⟩ hread
      rcases hrest with rfl | rfl <;> rfl
  rw [written?_eq, hread]

theorem ofWholeChars?_of_some {text : List Char} {q : Gathered Pattern} {f : Flags}
    {names : List (List Char)} {w : Pattern}
    (h : readText (text ++ [')', '$']) = some (q, ⟨f, names, [')', '$']⟩)) :
    ofWholeChars? text = some w ↔ FitsAnchored text q.whole ∧ w = anchored q.value := by
  unfold ofWholeChars? ofChars?
  rw [written?_enclosed_of_some h]
  by_cases hnests : q.whole.depth + 2 ≤ nestLimit
  · rw [if_pos hnests]
    constructor
    · intro hw
      obtain ⟨hfits, hw⟩ := Option.ite_none_right_eq_some.1 hw
      exact ⟨⟨hnests, hfits⟩, (Option.some.inj hw).symm⟩
    · rintro ⟨⟨-, hfits⟩, rfl⟩
      exact if_pos hfits
  · rw [if_neg hnests]
    exact iff_of_false nofun fun h => hnests h.1.nests

theorem ofWholeChars?_eq_none {text : List Char}
    (h : ∀ q r, readText (text ++ [')', '$']) = some (q, r) → r.rest <:+ ['$']) :
    ofWholeChars? text = none := by
  unfold ofWholeChars? ofChars?
  rw [written?_enclosed_eq_none h]

/-- A text that does not close its group early (`closesEarly`), put between `^(?:` and `)$`,
denotes the pattern that it is `written?` for by itself, `anchored`; but nothing if it
`endsInComment`, or if the anchors lead beyond the limits of the engine (`FitsAnchored`). -/
theorem ofWholeChars?_eq_some_iff {text : List Char} {w : Pattern}
    (hclosed : closesEarly text = false) :
    ofWholeChars? text = some w ↔ endsInComment text = false ∧
      ∃ q, written? text = some q ∧ FitsAnchored text q ∧ w = anchored q.value := by
  have hfollow : Outcome text (readText text) (readText (text ++ [')', '$'])) :=
    follows_readAlternatives (r := ⟨.initial, [], text⟩) (List.suffix_refl text)
      (by simp only; omega) (by simp only [List.length_append]; omega)
  have hnone (h : ∀ q r, readText (text ++ [')', '$']) = some (q, r) → r.rest <:+ ['$']) :
      ¬ofWholeChars? text = some w := by
    rw [ofWholeChars?_eq_none h]
    exact Option.some_ne_none w ∘ Eq.symm
  unfold closesEarly at hclosed
  unfold endsInComment
  rw [written?_eq]
  generalize ho : readText text = o, ho' : readText (text ++ [')', '$']) = o' at *
  cases hfollow with
  | @same q r h =>
    obtain ⟨f, names, rest⟩ := r
    obtain rfl : rest = [] := by simpa using hclosed
    rw [ofWholeChars?_of_some ho']
    constructor
    · rintro ⟨hfits, rfl⟩
      have hnests : q.whole.depth ≤ nestLimit := Nat.le_of_add_right_le hfits.nests
      exact ⟨rfl, q.whole, by simp [hnests], hfits, rfl⟩
    · rintro ⟨-, q', hq', hfits, rfl⟩
      obtain ⟨-, hq'⟩ := Option.ite_none_right_eq_some.1 hq'
      cases hq'
      exact ⟨hfits, rfl⟩
  | @swallowed q r h =>
    refine iff_of_false (hnone fun q' r' h' => ?_) fun h' => ?_
    · cases h'
      exact h ▸ List.nil_suffix
    · simp [h] at h'
  | refused =>
    refine iff_of_false (hnone fun q r h' => ?_) fun h' => ?_
    · cases h'
    · obtain ⟨-, q, hq, -⟩ := h'
      cases hq
  | @overrun q r h =>
    refine iff_of_false (hnone fun q' r' h' => ?_) fun h' => ?_
    · cases h'
      exact h
    · obtain ⟨-, q, hq, -⟩ := h'
      cases hq

end Enclosed

/-! ## What the pattern finds -/

section Found

variable [Characters]

theorem filter_textStart_pushFrom (offset : Nat) (c : Char) (earlier : List Place)
    (text : List Char) :
    (Place.pushFrom offset (some c) earlier text).filter (Look.holds .textStart)
      = earlier.filter (Look.holds .textStart) := by
  induction text generalizing offset c earlier with
  | nil => rfl
  | cons d r ih => exact ih (offset + 1) d (⟨offset, some c, d :: r⟩ :: earlier)

/-- Nothing stands before one place of a text only. -/
theorem filter_textStart_all (text : List Char) :
    (Place.all text).filter (Look.holds .textStart) = [Place.start text] := by
  cases text with
  | nil => rfl
  | cons c r => exact filter_textStart_pushFrom 1 c [Place.start (c :: r)] r

/-- A pattern held to both ends is found in a text iff it matches the whole of it. -/
theorem found_anchored (q : Pattern) (text : List Char) :
    (anchored q).found text = q.matchesWhole text := by
  unfold found matchesWhole anchored
  change (!((q.reach ((Place.all text).filter (Look.holds .textStart))).filter
    (Look.holds .textEnd)).isEmpty) = _
  rw [filter_textStart_all]
  induction reach q [Place.start text] with
  | nil => rfl
  | cons p places ih =>
    rw [List.filter_cons, List.any_cons, ← ih]
    cases h : Look.textEnd.holds p <;> simp_all [Look.holds]

end Found

end Pattern

namespace Comparison

variable [Pattern.Engine]

/-- A value other than null has a pattern (`Comparison.hasPattern`) iff the text of the pattern is
`written?` for one by itself and that matches the whole text of the value (`matchesWhole`). -/
theorem hasPattern_iff {actual : Json} {pattern : String} (hnull : actual.isNull = false)
    (hclosed : Pattern.closesEarly pattern.toList = false) :
    hasPattern actual pattern = true ↔ Pattern.endsInComment pattern.toList = false ∧
      ∃ q, Pattern.written? pattern.toList = some q ∧ Pattern.FitsAnchored pattern.toList q ∧
        q.value.matchesWhole actual.stringForm.toList = true := by
  have hfound : hasPattern actual pattern = true ↔
      ∃ w, Pattern.ofWholeChars? pattern.toList = some w ∧
        w.found actual.stringForm.toList = true := by
    unfold hasPattern
    rw [hnull]
    cases Pattern.ofWholeChars? pattern.toList <;> simp
  rw [hfound]
  constructor
  · rintro ⟨w, hw, hmatch⟩
    obtain ⟨hcomment, q, hq, hfits, rfl⟩ := (Pattern.ofWholeChars?_eq_some_iff hclosed).1 hw
    exact ⟨hcomment, q, hq, hfits, Pattern.found_anchored q.value _ ▸ hmatch⟩
  · rintro ⟨hcomment, q, hq, hfits, hmatch⟩
    exact ⟨Pattern.anchored q.value,
      (Pattern.ofWholeChars?_eq_some_iff hclosed).2 ⟨hcomment, q, hq, hfits, rfl⟩,
      (Pattern.found_anchored q.value _).trans hmatch⟩

end Comparison

namespace PathAssertion

/-- An assertion that a value matches a pattern passes, where the pattern does not close a group
that it does not open (`closesEarly`), iff the pattern does not end in a comment
(`endsInComment`), is a pattern by itself (`written?`), keeps within the limits of the engine with
an anchor at each end (`FitsAnchored`), and matches the whole text of the value (`matchesWhole`).
This is so whatever properties the `Engine` knows and whichever patterns it finds too large. -/
theorem check_matches_iff [Pattern.Engine] (document actual : Json) (a : PathAssertion)
    (ctx : Option Context) (path : Path)
    (hname : Comparison.ofName? a.comparison = some .matchesPattern)
    (hpath : Path.parse a.path = .ok path) (hactual : path.evaluate document = .ok (some actual))
    (hnull : actual.isNull = false)
    (hclosed : Pattern.closesEarly (a.resolved ctx).stringForm.toList = false) :
    a.check document ctx = .ok none ↔
      Pattern.endsInComment (a.resolved ctx).stringForm.toList = false ∧
      ∃ q, Pattern.written? (a.resolved ctx).stringForm.toList = some q ∧
        Pattern.FitsAnchored (a.resolved ctx).stringForm.toList q ∧
        q.value.matchesWhole actual.stringForm.toList = true := by
  rw [← Comparison.hasPattern_iff hnull hclosed]
  unfold check
  simp only [hname, hpath, hactual]
  change (Except.ok (if Comparison.hasPattern actual (a.resolved ctx).stringForm = true then none
    else some _) : Except Path.Breakdown (Option Failure)) = .ok none ↔ _
  split <;> simp_all

/-- Either side of an alternative is held to both ends. -/
theorem check_matches_iff_alternatives :
    check (.string "bc") ⟨"$", .string "a|bc", "matches"⟩ none = .ok none := by
  refine (check_matches_iff (.string "bc") (.string "bc") _ none ⟨"$", [.root], true⟩ ?_ rfl rfl rfl
    ?_).2 ⟨?_, ?_⟩
  · decide +kernel
  · decide +kernel
  · decide +kernel
  · have hwritten : Pattern.written? "a|bc".toList = some
        ⟨.alt (.chars (.single 'a')) (.seq (.chars (.single 'b')) (.chars (.single 'c'))), 2⟩ := by
      decide +kernel
    refine ⟨_, hwritten, ⟨by decide, ?_⟩, ?_⟩
    · decide +kernel
    · decide +kernel

/-- **A pattern can get out of the group that is put around it.**  One that closes the group and
opens another (`closesEarly`) matches though it is no pattern by itself, and one that
`endsInComment` does not match what it matches by itself. -/
theorem exists_patterns_out_of_group :
    (Pattern.written? "a)|(?:b".toList = none ∧
      check (.string "ax") ⟨"$", .string "a)|(?:b", "matches"⟩ none = .ok none) ∧
    ((∃ q, Pattern.ofChars? "(?x)a#".toList = some q ∧ q.matchesWhole "a".toList = true) ∧
      check (.string "a") ⟨"$", .string "(?x)a#", "matches"⟩ none ≠ .ok none) := by
  have hname : Comparison.ofName? "matches" = some .matchesPattern := by decide +kernel
  have hcheck (text pattern : String) :
      check (.string text) ⟨"$", .string pattern, "matches"⟩ none
        = .ok (if Comparison.hasPattern (.string text) pattern then none
          else some (.comparison "$" .matchesPattern pattern text)) := by
    unfold check
    simp only [hname]
    rfl
  rw [hcheck, hcheck]
  refine ⟨⟨by decide +kernel, ?_⟩, ⟨.chars (.single 'a'), by decide +kernel⟩, ?_⟩
  · rw [if_pos (by decide +kernel)]
  · rw [if_neg (by decide +kernel)]
    exact nofun

end PathAssertion

end RestCase
