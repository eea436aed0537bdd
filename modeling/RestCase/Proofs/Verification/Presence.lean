/-
# RestCase.Proofs.Verification.Presence — what the assertions on one path say together

An assertion first follows its path and then asks its comparison of what the path leads to.  Only
two comparisons have a say in whether the path leads anywhere; all others want a value and are told
nothing about its absence, so that where there is none they fail, also the ones that a missing value
might be thought to satisfy, such as `isNull` and `isEmpty` (`passes_iff_notExist`).

`Asks` is the first of the two stages and `Comparison.Accepts` is the second, and `Asks.passes_iff`
puts them together.  The assertions on one path, one for each comparison, are a `Questionnaire`; its
answers are told by what the path leads to, for every path that can be followed, and
`Questionnaire.answers` also says what they are where the path cannot be read.
-/
import RestCase.Verification.Check

namespace RestCase

/-! ## Values without content -/

namespace Json

/-- A value without content: null, the empty text, the empty array and the empty object;
`Json.isEmpty` decides it. -/
inductive Bare : Json → Prop
  | null : Bare .null
  | string : Bare (.string "")
  | array : Bare (.array [])
  | object : Bare (.object [])

theorem isEmpty_iff {v : Json} : v.isEmpty = true ↔ v.Bare := by
  constructor
  · intro h
    cases v with
    | null => exact .null
    | bool | int | float => cases h
    | string s =>
      obtain rfl : s = "" := by simpa [isEmpty] using h
      exact .string
    | array items =>
      obtain rfl : items = [] := List.isEmpty_iff.1 h
      exact .array
    | object members =>
      obtain rfl : members = [] := List.isEmpty_iff.1 h
      exact .object
  · intro h
    cases h with
    | null | string | array | object => rfl

end Json

/-! ## One assertion -/

namespace Comparison

variable [Pattern.Engine]

/-- What a comparison wants of what a path leads to: that it is nothing, or a value of which the
comparison holds (`Comparison.holds`). -/
def Accepts (c : Comparison) (expected : Json) : Option Json → Prop
  | none => c = notExist
  | some v => c.holds v expected = true

theorem accepts_exist_iff {expected : Json} {found : Option Json} :
    exist.Accepts expected found ↔ found ≠ none := by
  cases found with
  | none => exact iff_of_false (fun h => Comparison.noConfusion h) fun h => h rfl
  | some v => exact iff_of_true rfl (Option.some_ne_none v)

theorem accepts_notExist_iff {expected : Json} {found : Option Json} :
    notExist.Accepts expected found ↔ found = none := by
  cases found with
  | none => exact iff_of_true rfl rfl
  | some v => exact iff_of_false (fun h => Bool.noConfusion h) (Option.some_ne_none v)

end Comparison

namespace PathAssertion

variable [Pattern.Engine] {document : Json} {a : PathAssertion} {ctx : Option Context}
    {c : Comparison}
  {found : Option Json}

/-- The document is as the assertion wants it: `PathAssertion.check` gives no failure. -/
def Passes (document : Json) (ctx : Option Context) (a : PathAssertion) : Prop :=
  a.check document ctx = .ok none

/-- The assertion is answered with a `Failure`. -/
def Fails (document : Json) (ctx : Option Context) (a : PathAssertion) : Prop :=
  ∃ f, a.check document ctx = .ok (some f)

/-- The assertion asks a comparison of what its path leads to. -/
structure Asks (document : Json) (a : PathAssertion) (c : Comparison) (found : Option Json) :
    Prop where
  named : Comparison.ofName? a.comparison = some c
  leads : ∃ path, Path.parse a.path = .ok path ∧ path.evaluate document = .ok found

theorem failureOf?_eq_none_iff {path : String} {expected : Json} :
    failureOf? path c expected found = none ↔ c.Accepts expected found := by
  cases found with
  | none =>
    cases c with
    | notExist => exact iff_of_true rfl rfl
    | exist | equals | contains | startsWith | endsWith | matchesPattern | greaterThan | lessThan
    | isNull | isNotNull | isEmpty | isNotEmpty =>
      exact iff_of_false (Option.some_ne_none _) fun h => Comparison.noConfusion h
  | some v =>
    cases c with
    | notExist => exact iff_of_false (Option.some_ne_none _) fun h => Bool.noConfusion h
    | exist | equals | contains | startsWith | endsWith | matchesPattern | greaterThan | lessThan
    | isNull | isNotNull | isEmpty | isNotEmpty =>
      simp only [failureOf?]
      split
      · next h => exact iff_of_true rfl h
      · next h => exact iff_of_false (Option.some_ne_none _) h

theorem Asks.check_eq (h : Asks document a c found) (ctx : Option Context) :
    a.check document ctx = .ok (failureOf? a.path c (a.resolved ctx) found) := by
  obtain ⟨path, hpath, hfound⟩ := h.leads
  simp only [check, h.named, hpath, hfound, Except.map]

/-- **An assertion passes iff its comparison accepts what its path leads to**:
`PathAssertion.check` against `Accepts`. -/
theorem Asks.passes_iff (h : Asks document a c found) :
    a.Passes document ctx ↔ c.Accepts (a.resolved ctx) found := by
  rw [Passes, h.check_eq, Except.ok.injEq]
  exact failureOf?_eq_none_iff

/-- An assertion whose path can be followed is answered one way or the other. -/
theorem Asks.fails_iff (h : Asks document a c found) :
    a.Fails document ctx ↔ ¬ a.Passes document ctx := by
  unfold Fails Passes
  rw [h.check_eq]
  simp only [Except.ok.injEq]
  exact Option.ne_none_iff_exists'.symm

/-- An assertion on a path that cannot be read fails, and says what is wrong with the path. -/
theorem check_of_parse_eq_error {fault : Path.Fault}
    (hname : Comparison.ofName? a.comparison = some c) (hpath : Path.parse a.path = .error fault) :
    a.check document ctx = .ok (some (.badPath a.path fault)) := by
  simp only [check, hname, hpath]

end PathAssertion

/-! ## The assertions on one path -/

theorem Path.definite_of_evaluate_eq_none [Pattern.Engine] {path : Path} {document : Json}
    (h : path.evaluate document = .ok none) : path.definite = true := by
  unfold Path.evaluate at h
  cases hselect : path.select document with
  | error b =>
    rw [hselect] at h
    cases h
  | ok values =>
    rw [hselect] at h
    have hfound : (if path.definite then values.head? else some (.array values)) = none :=
      Except.ok.inj h
    split at hfound
    · next hdefinite => exact hdefinite
    · cases hfound

/-- The assertions on one path, one for each `Comparison`, with expected values of any kind and
under any spelling of the names. -/
structure Questionnaire (text : String) where
  ask : Comparison → PathAssertion
  path_eq : ∀ c, (ask c).path = text
  named : ∀ c, Comparison.ofName? (ask c).comparison = some c

namespace Questionnaire

variable {text : String} {document : Json} {ctx : Option Context} {found : Option Json}

/-- The assertion with a comparison passes. -/
def Passes [Pattern.Engine] (q : Questionnaire text) (document : Json) (ctx : Option Context)
    (c : Comparison) :
    Prop :=
  (q.ask c).Passes document ctx

/-- The assertion with a comparison fails. -/
def Fails [Pattern.Engine] (q : Questionnaire text) (document : Json) (ctx : Option Context)
    (c : Comparison) :
    Prop :=
  (q.ask c).Fails document ctx

section Followed

variable [Pattern.Engine] {q : Questionnaire text} {path : Path}
    (hpath : Path.parse text = .ok path)
  (hfound : path.evaluate document = .ok found)

include hpath hfound

theorem asks (c : Comparison) : (q.ask c).Asks document c found :=
  ⟨q.named c, path, by rw [q.path_eq, hpath], hfound⟩

theorem passes_iff_accepts (c : Comparison) :
    q.Passes document ctx c ↔ c.Accepts ((q.ask c).resolved ctx) found :=
  (asks hpath hfound c).passes_iff

theorem fails_iff_not_passes (c : Comparison) :
    q.Fails document ctx c ↔ ¬ q.Passes document ctx c :=
  (asks hpath hfound c).fails_iff

theorem passes_exist_iff : q.Passes document ctx .exist ↔ found ≠ none :=
  (passes_iff_accepts hpath hfound .exist).trans Comparison.accepts_exist_iff

theorem passes_notExist_iff : q.Passes document ctx .notExist ↔ found = none :=
  (passes_iff_accepts hpath hfound .notExist).trans Comparison.accepts_notExist_iff

end Followed

section Present

variable [Pattern.Engine] {q : Questionnaire text} {path : Path} {v : Json}
    (hpath : Path.parse text = .ok path)
  (hfound : path.evaluate document = .ok (some v))

include hpath hfound

theorem passes_isNull_iff : q.Passes document ctx .isNull ↔ v = .null :=
  (passes_iff_accepts hpath hfound .isNull).trans v.isNull_iff

theorem passes_isNotNull_iff : q.Passes document ctx .isNotNull ↔ v ≠ .null := by
  have hholds : q.Passes document ctx .isNotNull ↔ (!v.isNull) = true :=
    passes_iff_accepts hpath hfound .isNotNull
  rw [hholds, Bool.not_eq_true', Bool.eq_false_iff, Ne, v.isNull_iff]

theorem passes_isEmpty_iff : q.Passes document ctx .isEmpty ↔ v.Bare :=
  (passes_iff_accepts hpath hfound .isEmpty).trans Json.isEmpty_iff

theorem passes_isNotEmpty_iff : q.Passes document ctx .isNotEmpty ↔ ¬ v.Bare := by
  have hholds : q.Passes document ctx .isNotEmpty ↔ (!v.isEmpty) = true :=
    passes_iff_accepts hpath hfound .isNotEmpty
  rw [hholds, Bool.not_eq_true', Bool.eq_false_iff, Ne, Json.isEmpty_iff]

end Present

/-- **Where a path leads nowhere only `notExists` passes.** -/
theorem passes_iff_notExist [Pattern.Engine] {q : Questionnaire text} {path : Path}
    (hpath : Path.parse text = .ok path) (hfound : path.evaluate document = .ok none)
    (c : Comparison) : q.Passes document ctx c ↔ c = .notExist :=
  passes_iff_accepts hpath hfound c

/-- **What the assertions on one path say together.**  Each of them passes or fails, as long as the
path can be followed.  Exactly one of `exists` and `notExists` passes, and the first does iff the
path leads to a value.  Of a value exactly one of `isNull` and `isNotNull` passes and exactly one of
`isEmpty` and `isNotEmpty`, the first ones for null and for what has no content, and null has none.
Only a definite path leads nowhere, and then `notExists` alone passes.  On a path that cannot be
read every assertion fails, and says why. -/
theorem answers [Pattern.Engine] (q : Questionnaire text) (document : Json) (ctx : Option Context) :
    (∀ path found, Path.parse text = .ok path → path.evaluate document = .ok found →
      (∀ c, q.Fails document ctx c ↔ ¬ q.Passes document ctx c) ∧
      (q.Passes document ctx .exist ↔ ¬ q.Passes document ctx .notExist) ∧
      (q.Passes document ctx .exist ↔ found ≠ none) ∧
      (∀ v, found = some v →
        (q.Passes document ctx .isNull ↔ ¬ q.Passes document ctx .isNotNull) ∧
        (q.Passes document ctx .isEmpty ↔ ¬ q.Passes document ctx .isNotEmpty) ∧
        (q.Passes document ctx .isNull → q.Passes document ctx .isEmpty) ∧
        (q.Passes document ctx .isNull ↔ v = .null) ∧
        (q.Passes document ctx .isEmpty ↔ v.Bare)) ∧
      (found = none →
        path.definite = true ∧ ∀ c, q.Passes document ctx c ↔ c = .notExist)) ∧
    (∀ fault, Path.parse text = .error fault → ∀ c, ∃ f,
      (q.ask c).check document ctx = .ok (some f) ∧
      f.message = "Error evaluating JSONPath '" ++ text ++ "': " ++ fault.message) := by
  refine ⟨fun path found hpath hfound => ⟨fun c => ?_, ?_, ?_, ?_, ?_⟩, ?_⟩
  · exact fails_iff_not_passes hpath hfound c
  · rw [passes_exist_iff hpath hfound, passes_notExist_iff hpath hfound]
  · exact passes_exist_iff hpath hfound
  · rintro v rfl
    rw [passes_isNull_iff hpath hfound, passes_isNotNull_iff hpath hfound,
      passes_isEmpty_iff hpath hfound, passes_isNotEmpty_iff hpath hfound]
    refine ⟨Classical.not_not.symm, Classical.not_not.symm, ?_, Iff.rfl, Iff.rfl⟩
    rintro rfl
    exact .null
  · rintro rfl
    exact ⟨Path.definite_of_evaluate_eq_none hfound, passes_iff_notExist hpath hfound⟩
  · intro fault hfault c
    have hpath : Path.parse (q.ask c).path = .error fault := by rw [q.path_eq, hfault]
    refine ⟨.badPath (q.ask c).path fault, ?_, ?_⟩
    · exact PathAssertion.check_of_parse_eq_error (q.named c) hpath
    · rw [q.path_eq]
      rfl

/-- The name of a comparison in upper case, between blanks. -/
def shout (c : Comparison) : String := " " ++ Text.toUpper c.name ++ " "

theorem ofName?_shout (c : Comparison) : Comparison.ofName? (shout c) = some c := by
  cases c <;> decide +kernel

/-- The assertions on a path with one expected value, under shouted names. -/
def shouted (text : String) (expected : Json) : Questionnaire text where
  ask c := ⟨text, expected, shout c⟩
  path_eq _ := rfl
  named := ofName?_shout

/-- A member that is null, a member that is not there, and a path that cannot be read. -/
theorem answers_shouted :
    ((shouted "$.a" .null).Passes (.object [("a", .null)]) none .exist ∧
      ¬ (shouted "$.a" .null).Passes (.object [("a", .null)]) none .notExist ∧
      (shouted "$.a" .null).Passes (.object [("a", .null)]) none .isNull ∧
      (shouted "$.a" .null).Passes (.object [("a", .null)]) none .isEmpty) ∧
    (∀ c, (shouted "$.b" .null).Passes (.object [("a", .null)]) none c ↔ c = .notExist) ∧
    (∀ c, ∃ f, ((shouted "$[" .null).ask c).check (.object [("a", .null)]) none = .ok (some f) ∧
      f.message = "Error evaluating JSONPath '$[': invalid path '$[': Failed to parse rule") := by
  obtain ⟨hnull, -⟩ := answers (shouted "$.a" .null) (.object [("a", .null)]) none
  obtain ⟨hmissing, -⟩ := answers (shouted "$.b" .null) (.object [("a", .null)]) none
  obtain ⟨-, hunreadable⟩ := answers (shouted "$[" .null) (.object [("a", .null)]) none
  obtain ⟨-, hone, hexist, hvalue, -⟩ :=
    hnull ⟨"$.a", [.root, .member "a"], true⟩ (some .null) rfl rfl
  obtain ⟨-, -, hempty, hisNull, -⟩ := hvalue .null rfl
  have hthere := hexist.2 (Option.some_ne_none _)
  refine ⟨⟨hthere, hone.1 hthere, hisNull.2 rfl, hempty (hisNull.2 rfl)⟩, ?_, ?_⟩
  · obtain ⟨-, -, -, -, hnowhere⟩ := hmissing ⟨"$.b", [.root, .member "b"], true⟩ none rfl rfl
    exact (hnowhere rfl).2
  · exact hunreadable (.unreadable "$[") rfl

end Questionnaire

end RestCase
