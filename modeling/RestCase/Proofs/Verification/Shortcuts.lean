/-
# RestCase.Proofs.Verification.Shortcuts — filling only where there is something to fill

Expected headers and texts are filled only if they have placeholders, and not at all without a
context; template variables are put in only if there are some and the text has an opening mark.
None of these tests changes a result (`shortcuts_change_nothing`), because filling looks names up
exactly where a placeholder closes, and a text in which no name has a value is filled with itself
(`interpolate_of_not_hasPlaceholders`, `interpolate_empty`).

`fillLogged` is filling with a record of the names that are looked up (`fillLogged_eq`), and
`checkWith` is the check of a response with the expected headers and values given by two functions;
the tests are on one side of an equation, and these without them on the other.
-/
import RestCase.Proofs.Template.Splitting
import RestCase.Verification.Check

namespace RestCase

namespace Template

/-! ## Look-ups -/

/-- Filling with a record of the names that are looked up, in turn. -/
def fillLogged (marks : Marks) (value? : List Char → Option (List Char)) (template : List Char) :
    Filled × List (List Char) :=
  match _h : Chars.splitFirst? marks.opening template with
  | none => (⟨template, []⟩, [])
  | some (before, inside) =>
    match _h' : Chars.splitFirst? marks.closing inside with
    | none => (⟨template, []⟩, [])
    | some (name, rest) =>
      let tail := fillLogged marks value? rest
      match value? name with
      | some v => (⟨before ++ (v ++ tail.1.text), tail.1.unresolved⟩, name :: tail.2)
      | none =>
        (⟨before ++ (marks.opening ++ (name ++ (marks.closing ++ tail.1.text))),
          name :: tail.1.unresolved⟩, name :: tail.2)
termination_by template.length
decreasing_by
  have h₁ := Chars.splitFirst?_length _h
  have h₂ := Chars.splitFirst?_length _h'
  have h₃ := List.length_pos_iff.2 marks.opening_ne_nil
  omega

/-- **The names that filling looks up** are those in the placeholders (`holes`), and the record
does not change what is filled. -/
theorem fillLogged_eq (marks : Marks) (value? : List Char → Option (List Char))
    (template : List Char) :
    fillLogged marks value? template = (fill marks value? template, holes marks template) := by
  induction template using pieces.induct marks with
  | case1 template ho =>
    rw [fill_of_no_opening ho, holes_of_no_opening ho, fillLogged]
    split
    · rfl
    · next h => rw [ho] at h; cases h
  | case2 template before inside ho hc =>
    rw [fill_of_no_closing ho hc, holes_of_no_closing ho hc, fillLogged]
    split
    · rfl
    · next h =>
      obtain ⟨rfl, rfl⟩ := Prod.mk.inj (Option.some.inj (ho.symm.trans h))
      split
      · rfl
      · next h' => rw [hc] at h'; cases h'
  | case3 template before inside ho name rest hc ih =>
    rw [fill_of_placeholder ho hc, holes_of_placeholder ho hc, fillLogged]
    split
    · next h => rw [ho] at h; cases h
    · next h =>
      obtain ⟨rfl, rfl⟩ := Prod.mk.inj (Option.some.inj (ho.symm.trans h))
      split
      · next h' => rw [hc] at h'; cases h'
      · next h' =>
        obtain ⟨rfl, rfl⟩ := Prod.mk.inj (Option.some.inj (hc.symm.trans h'))
        rw [ih]
        cases value? name <;> rfl

/-! ## Texts that stay as they are -/

theorem interpolate_of_forall_none {ctx : Context} {text : String}
    (h : ∀ name ∈ holes variableMarks text.toList, valueIn ctx name = none) :
    interpolate ctx text = text := by
  rw [interpolate, interpolation_eq, fill_of_forall_none h, String.ofList_toList]

/-- A text without placeholders stays as it is. -/
theorem interpolate_of_not_hasPlaceholders {text : String} (h : ¬ hasPlaceholders text = true)
    (ctx : Context) : interpolate ctx text = text := by
  rw [hasPlaceholders_iff, not_not] at h
  exact interpolate_of_forall_none (by rw [h]; exact fun _ hname => nomatch hname)

/-- Without variables every text stays as it is. -/
theorem interpolate_empty (text : String) : interpolate .empty text = text :=
  interpolate_of_forall_none fun _ _ => rfl

end Template

/-! ## Checks without the tests -/

/-- The expected value with the variables put in, if it is a text. -/
def PathAssertion.filled (a : PathAssertion) (ctx : Context) : Json :=
  match a.expected with
  | .string s => .string (Template.interpolate ctx s)
  | v => v

/-- Check one assertion against a document, with a given value in place of the expected one:
`PathAssertion.check` without the test for placeholders. -/
def PathAssertion.checkWith [Pattern.Engine] (document : Json) (a : PathAssertion)
    (expected : Json) :
    Except Path.Breakdown (Option Failure) :=
  match Comparison.ofName? a.comparison with
  | none => .ok (some (.unknownComparison (Text.trim a.comparison)))
  | some c =>
    match Path.parse a.path with
    | .error fault => .ok (some (.badPath a.path fault))
    | .ok path => (path.evaluate document).map (failureOf? a.path c expected)

/-- A check takes the expected value as the test of its context gives it. -/
theorem PathAssertion.check_eq_checkWith [Pattern.Engine] (document : Json) (a : PathAssertion)
    (ctx : Option Context) : a.check document ctx = a.checkWith document (a.resolved ctx) := by
  unfold check checkWith
  cases Comparison.ofName? a.comparison with
  | none => rfl
  | some c =>
    cases Path.parse a.path with
    | error fault => rfl
    | ok path => rfl

namespace Verification

/-- The failures of the headers, with the expected values given by a function. -/
def headerFailuresWith (header : String → String) (v : Verification) (r : Response) :
    List Failure :=
  v.headers.entries.filterMap fun h => headerFailure? r h.1 (header h.2)

/-- The failures of the assertions, with the expected values given by a function. -/
def assertionFailuresWith [Pattern.Engine] (expected : PathAssertion → Json) (v : Verification)
    (r : Response) :
    Except Path.Breakdown (List Failure) :=
  match r.json with
  | .error fault => .ok (v.assertions.map fun a => .bodyUnreadable a.path fault)
  | .ok document =>
    (v.assertions.mapM fun a => PathAssertion.checkWith document a (expected a)).map
      fun l => l.filterMap id

/-- Check a response, with the expected headers and values given by two functions. -/
def checkWith [Pattern.Engine] (header : String → String) (expected : PathAssertion → Json)
    (v : Verification) (r : Response) : Except Path.Breakdown (List Failure) :=
  (v.assertionFailuresWith expected r).map fun l =>
    v.statusFailures r ++ v.headerFailuresWith header r ++ l

/-- A check takes the expected headers and values as the tests of its context give them. -/
theorem check_eq_checkWith [Pattern.Engine] (v : Verification) (r : Response)
    (ctx : Option Context) :
    v.check r ctx = v.checkWith (expectedHeader ctx) (fun a => a.resolved ctx) r := by
  have hassertions : v.assertionFailures r ctx =
      v.assertionFailuresWith (fun a => a.resolved ctx) r := by
    unfold assertionFailures assertionFailuresWith
    cases r.json with
    | error fault => rfl
    | ok document => simp only [PathAssertion.check_eq_checkWith]
  rw [check, checkWith, hassertions]
  rfl

theorem expectedHeader_some (ctx : Context) :
    expectedHeader (some ctx) = Template.interpolate ctx := by
  funext expected
  unfold expectedHeader
  simp only
  split
  · rfl
  · next h => exact (Template.interpolate_of_not_hasPlaceholders h ctx).symm

theorem expectedHeader_none : expectedHeader none = Template.interpolate .empty :=
  funext fun expected => (Template.interpolate_empty expected).symm

end Verification

namespace PathAssertion

theorem resolved_some (a : PathAssertion) (ctx : Context) :
    a.resolved (some ctx) = a.filled ctx := by
  unfold resolved filled
  cases a.expected with
  | string s =>
    simp only
    split
    · rfl
    · next h => rw [Template.interpolate_of_not_hasPlaceholders h]
  | null | bool | int | float | array | object => rfl

theorem resolved_none (a : PathAssertion) : a.resolved none = a.filled .empty := by
  unfold resolved filled
  cases a.expected with
  | string s => exact congrArg Json.string (Template.interpolate_empty s).symm
  | null | bool | int | float | array | object => rfl

end PathAssertion

/-- **Tests before filling change no result.**  A text has placeholders (`hasPlaceholders`)
exactly if filling it looks up a name (`fillLogged`); a check gives the same failures as one that
fills every expected header and text (`checkWith`); without a context it gives those of a context
without variables; and template variables (`applyVariables`) are put in as by filling the text in
any case. -/
theorem shortcuts_change_nothing [Pattern.Engine] :
    (∀ (ctx : Context) (text : String),
      (Template.fillLogged Template.variableMarks (Template.valueIn ctx) text.toList).1 =
        Template.fill Template.variableMarks (Template.valueIn ctx) text.toList ∧
      (Template.hasPlaceholders text = true ↔
        (Template.fillLogged Template.variableMarks (Template.valueIn ctx) text.toList).2 ≠ [])) ∧
    (∀ (v : Verification) (r : Response) (ctx : Context),
      v.check r (some ctx) = v.checkWith (Template.interpolate ctx) (fun a => a.filled ctx) r) ∧
    (∀ (v : Verification) (r : Response), v.check r none = v.check r (some .empty)) ∧
    (∀ (vars : List Template.Variable) (template : String),
      Template.applyVariables vars template =
        String.ofList (Template.fill Template.payloadMarks (Template.effectiveValue? vars)
          template.toList).text) := by
  refine ⟨fun ctx text => ⟨?_, ?_⟩, fun v r ctx => ?_, fun v r => ?_,
    Template.applyVariables_eq_fill⟩
  · rw [Template.fillLogged_eq]
  · rw [Template.fillLogged_eq]
    exact Template.hasPlaceholders_iff
  · simp only [Verification.check_eq_checkWith, Verification.expectedHeader_some,
      PathAssertion.resolved_some]
  · simp only [Verification.check_eq_checkWith, Verification.expectedHeader_some,
      Verification.expectedHeader_none, PathAssertion.resolved_some, PathAssertion.resolved_none]

end RestCase
