/-
# RestCase.Proofs.Verification.Independence — checks that know nothing of each other

A verification is a list of checks (`Verification.checks`), and checking a response goes along this
list (`check_eq_filterMap`): each `Check` says on its own whether the response passes it, and if
not, with which failure (`failure?_eq_none_iff`).  No check ends the list, none is reported twice,
and none has a say in the failure of another.  So a verification that is edited in one place has the
same failures as before on either side of the failure of that place (`Edit.exists_checks`,
`check_one_by_one`).

A body that is no document fails every assertion, each with a failure of its own, and the other
checks do not notice.

Boundary: the paths of the assertions can be followed on the body (`FollowableOn`); otherwise there
is no report at all.
-/
import RestCase.Proofs.Run.Returning
import RestCase.Proofs.Table.Listing
import RestCase.Proofs.Verification.Shortcuts

namespace RestCase

/-! ## Checks -/

/-- One thing that a response has to be like. -/
inductive Check where
  | status (expected : Nat)
  | header (name expected : String)
  | assertion (a : PathAssertion)

/-- The checks of a verification (`Check`): the status, the headers in the order of their names,
and the assertions in turn. -/
def Verification.checks (v : Verification) : List Check :=
  v.statusCode.toList.map .status ++ v.headers.entries.map (fun h => .header h.1 h.2) ++
    v.assertions.map .assertion

/-- The response has a header of the name, up to case, and the first such header has the value. -/
def Response.HasFirst (r : Response) (name value : String) : Prop :=
  ∃ before own after, r.headers = before ++ (own, value) :: after ∧
    Text.sameIgnoringCase own name = true ∧
      ∀ h ∈ before, Text.sameIgnoringCase h.1 name = false

/-- An expected text with the variables put in, if there are any. -/
def filledIn (seen : Option Context) (expected : String) : String :=
  match seen with
  | some ctx => Template.interpolate ctx expected
  | none => expected

namespace Check

variable [Pattern.Engine]

/-- The response is as the check wants it. -/
def Passes (r : Response) (seen : Option Context) : Check → Prop
  | status expected => expected = r.status
  | header name expected => r.HasFirst name (filledIn seen expected)
  | assertion a => ∃ document, r.json = .ok document ∧ a.check document seen = .ok none

/-- The path of the check can be followed in the body, if the check has one and the body is a
document. -/
def FollowableOn (r : Response) : Check → Prop
  | status _ | header _ _ => True
  | assertion a => ∀ document, r.json = .ok document → ¬ a.BreaksOn document

/-- The failure of a check, if the response does not pass it (`Check.Passes`). -/
def failure? (r : Response) (seen : Option Context) : Check → Option Failure
  | status expected => if expected = r.status then none else some (.status expected r.status)
  | header name expected =>
    Verification.headerFailure? r name (Verification.expectedHeader seen expected)
  | assertion a =>
    match r.json with
    | .error fault => some (.bodyUnreadable a.path fault)
    | .ok document => (a.check document seen).toOption.join

/-- The failure is about the check, in one of the ways in which a `Check` can fail. -/
inductive Reports (r : Response) : Check → Failure → Prop
  | status (expected : Nat) : Reports r (.status expected) (.status expected r.status)
  | headerMissing (name expected : String) : Reports r (.header name expected) (.headerMissing name)
  | header (name expected wanted actual : String) :
      Reports r (.header name expected) (.header name wanted actual)
  | bodyUnreadable (a : PathAssertion) (fault : Json.SyntaxFault) :
      Reports r (.assertion a) (.bodyUnreadable a.path fault)
  | unknownComparison (a : PathAssertion) :
      Reports r (.assertion a) (.unknownComparison (Text.trim a.comparison))
  | badPath (a : PathAssertion) (fault : Path.Fault) :
      Reports r (.assertion a) (.badPath a.path fault)
  | notFound (a : PathAssertion) : Reports r (.assertion a) (.notFound a.path)
  | absent (a : PathAssertion) : Reports r (.assertion a) (.absent a.path)
  | present (a : PathAssertion) : Reports r (.assertion a) (.present a.path)
  | comparison (a : PathAssertion) (c : Comparison) (wanted shown : String) :
      Reports r (.assertion a) (.comparison a.path c wanted shown)

end Check

/-- Every path of the verification can be followed in the body, if that is a document. -/
def Verification.FollowableOn [Pattern.Engine] (v : Verification) (r : Response) : Prop :=
  ∀ c ∈ v.checks, c.FollowableOn r

/-! ## Passing -/

section Passing

variable {r : Response} {seen : Option Context}

/-- **The header that counts** is the first of its name. -/
theorem Response.header?_eq_some_iff {name value : String} :
    r.header? name = some value ↔ r.HasFirst name value := by
  unfold Response.header? headerNamed? Response.HasFirst
  rw [Option.map_eq_some_iff]
  simp only [List.find?_eq_some_iff_append, Bool.not_eq_true']
  constructor
  · rintro ⟨⟨own, v⟩, ⟨hown, before, after, hcut, hbefore⟩, rfl⟩
    exact ⟨before, own, after, hcut, hown, hbefore⟩
  · rintro ⟨before, own, after, hcut, hown, hbefore⟩
    exact ⟨(own, value), ⟨hown, before, after, hcut, hbefore⟩, rfl⟩

theorem filledIn_eq (seen : Option Context) (expected : String) :
    filledIn seen expected = Verification.expectedHeader seen expected := by
  cases seen with
  | some ctx => rw [Verification.expectedHeader_some]; rfl
  | none => rfl

/-- A header has no failure exactly if the first of its name has the expected value. -/
theorem headerFailure?_eq_none_iff {name expected : String} :
    Verification.headerFailure? r name expected = none ↔ r.HasFirst name expected := by
  rw [← Response.header?_eq_some_iff]
  unfold Verification.headerFailure?
  cases r.header? name with
  | none => simp
  | some actual => simp

/-- The check of an assertion that can be followed gives the failure of the assertion. -/
theorem check_eq_ok_failure? [Pattern.Engine] {a : PathAssertion} {document : Json}
    (hjson : r.json = .ok document) (ha : ¬ a.BreaksOn document) :
    a.check document seen = .ok ((Check.assertion a).failure? r seen) := by
  have hreturns : ¬ Breaks (a.check document seen) := mt check_breaks_iff.1 ha
  obtain ⟨found, hfound⟩ := not_breaks_iff.1 hreturns
  simp only [Check.failure?, hjson, hfound]
  rfl

/-- **A check has no `failure?` exactly if the response passes it** (`Check.Passes`). -/
theorem failure?_eq_none_iff [Pattern.Engine] {c : Check} (hc : c.FollowableOn r) :
    c.failure? r seen = none ↔ c.Passes r seen := by
  cases c with
  | status expected =>
    show (if expected = r.status then none else _) = none ↔ expected = r.status
    split
    · next h => exact iff_of_true rfl h
    · next h => exact iff_of_false (Option.some_ne_none _) h
  | header name expected =>
    show _ ↔ r.HasFirst name (filledIn seen expected)
    rw [filledIn_eq]
    exact headerFailure?_eq_none_iff
  | assertion a =>
    cases hjson : r.json with
    | error fault =>
      -- no document, so the assertion fails whatever it asks
      simp [Check.failure?, Check.Passes, hjson]
    | ok document =>
      have hcheck : a.check document seen = .ok ((Check.assertion a).failure? r seen) :=
        check_eq_ok_failure? hjson (hc document hjson)
      show _ ↔ ∃ document, r.json = .ok document ∧ _
      constructor
      · intro hnone
        exact ⟨document, hjson, hcheck.trans (congrArg Except.ok hnone)⟩
      · rintro ⟨document', hjson', hpasses⟩
        obtain rfl := Except.ok.inj (hjson.symm.trans hjson')
        exact Except.ok.inj (hcheck.symm.trans hpasses)

end Passing

/-! ## Reporting -/

section Reporting

variable [Pattern.Engine] {r : Response} {seen : Option Context}

/-- What is wrong with the value found is about the assertion whose path led to it. -/
theorem reports_of_failureOf? {a : PathAssertion} {c : Comparison} {expected : Json}
    {found : Option Json} {f : Failure}
    (h : PathAssertion.failureOf? a.path c expected found = some f) :
    Check.Reports r (.assertion a) f := by
  unfold PathAssertion.failureOf? at h
  split at h
  · split at h
    · cases h
    · obtain rfl := Option.some.inj h
      exact .absent a
    · obtain rfl := Option.some.inj h
      exact .notFound a
  · split at h
    · obtain rfl := Option.some.inj h
      exact .present a
    · split at h
      · cases h
      · obtain rfl := Option.some.inj h
        exact .comparison a _ _ _

/-- The failure of an assertion is about the assertion. -/
theorem reports_of_check {a : PathAssertion} {document : Json} {f : Failure}
    (h : a.check document seen = .ok (some f)) : Check.Reports r (.assertion a) f := by
  unfold PathAssertion.check at h
  split at h
  · obtain rfl := Option.some.inj (Except.ok.inj h)
    exact .unknownComparison a
  · split at h
    · obtain rfl := Option.some.inj (Except.ok.inj h)
      exact .badPath a _
    · next c _ _ path _ =>
      cases hfound : path.evaluate document with
      | error b => rw [hfound] at h; cases h
      | ok found =>
        rw [hfound] at h
        exact reports_of_failureOf? (Except.ok.inj h)

/-- **A failure is about the check whose failure it is** (`Reports`). -/
theorem reports_of_failure? {c : Check} {f : Failure} (h : c.failure? r seen = some f) :
    c.Reports r f := by
  cases c with
  | status expected =>
    simp only [Check.failure?] at h
    split at h
    · cases h
    · obtain rfl := Option.some.inj h
      exact .status expected
  | header name expected =>
    simp only [Check.failure?, Verification.headerFailure?] at h
    split at h
    · obtain rfl := Option.some.inj h
      exact .headerMissing name expected
    · split at h
      · cases h
      · obtain rfl := Option.some.inj h
        exact .header name expected _ _
  | assertion a =>
    simp only [Check.failure?] at h
    split at h
    · obtain rfl := Option.some.inj h
      exact .bodyUnreadable a _
    · next document _ =>
      cases hcheck : a.check document seen with
      | error b => rw [hcheck] at h; cases h
      | ok found =>
        rw [hcheck] at h
        obtain rfl : found = some f := h
        exact reports_of_check hcheck

end Reporting

/-! ## The list of failures -/

namespace Verification

variable {v w : Verification} {r : Response}

/-- The failures of the status and of the headers are those of their checks. -/
theorem statusFailures_eq_filterMap [Pattern.Engine] (v : Verification) (r : Response)
    (seen : Option Context) :
    v.statusFailures r =
      (v.statusCode.toList.map Check.status).filterMap (Check.failure? r seen) := by
  unfold statusFailures
  cases v.statusCode with
  | none => rfl
  | some expected =>
    show (if expected = r.status then [] else [Failure.status expected r.status]) = _
    by_cases h : expected = r.status
    · simp [Check.failure?, h]
    · simp [Check.failure?, h]

theorem headerFailures_eq_filterMap [Pattern.Engine] (v : Verification) (r : Response)
    (seen : Option Context) :
    v.headerFailures r seen =
      (v.headers.entries.map fun h => Check.header h.1 h.2).filterMap (Check.failure? r seen) := by
  rw [List.filterMap_map]
  rfl

/-- The failures of assertions that can be followed are those of their checks: none of them ends
the list. -/
theorem assertionFailures_eq_filterMap [Pattern.Engine] (hv : v.FollowableOn r)
    (seen : Option Context) :
    v.assertionFailures r seen =
      .ok ((v.assertions.map Check.assertion).filterMap (Check.failure? r seen)) := by
  have hassertion : ∀ a ∈ v.assertions, (Check.assertion a).FollowableOn r := by
    intro a ha
    apply hv
    exact List.mem_append_right _ (List.mem_map_of_mem ha)
  rw [List.filterMap_map]
  -- without a document each assertion fails for the same reason, and none is followed
  cases hjson : r.json with
  | error fault =>
    have hall : ∀ a ∈ v.assertions, (Check.failure? r seen ∘ Check.assertion) a =
        some (Failure.bodyUnreadable a.path fault) := by
      intro a _
      simp [Check.failure?, hjson]
    simp only [assertionFailures, hjson]
    rw [List.filterMap_congr hall, List.filterMap_eq_map']
  | ok document =>
    have hcheck : ∀ a ∈ v.assertions, a.check document seen =
        .ok ((Check.failure? r seen ∘ Check.assertion) a) := by
      intro a ha
      exact check_eq_ok_failure? hjson (hassertion a ha document hjson)
    simp only [assertionFailures, hjson]
    rw [mapM_eq_ok_map hcheck]
    show Except.ok ((v.assertions.map _).filterMap id) = _
    rw [List.filterMap_map]
    rfl

/-- **The failures of a verification are those of its checks, in their order**:
`Verification.check` is `failure?` over `Verification.checks`. -/
theorem check_eq_filterMap [Pattern.Engine] (hv : v.FollowableOn r) (seen : Option Context) :
    v.check r seen = .ok (v.checks.filterMap (Check.failure? r seen)) := by
  unfold check checks
  rw [assertionFailures_eq_filterMap hv, statusFailures_eq_filterMap v r seen,
    headerFailures_eq_filterMap, List.filterMap_append, List.filterMap_append]
  rfl

/-! ## Edits in one place -/

/-- Two verifications that differ in one place.  There the first one has a check or none, and the
second one has another check or none. -/
inductive Edit (v : Verification) : Option Check → Option Check → Verification → Prop
  | status (new : Option Nat) :
      Edit v (v.statusCode.map .status) (new.map .status) { v with statusCode := new }
  | header (name : String) (new : Option String) :
      Edit v ((v.headers.find? name).map (.header name)) (new.map (.header name))
        { v with headers := v.headers.replace name new }
  | assertion (before after : List PathAssertion) (old new : Option PathAssertion)
      (h : v.assertions = before ++ old.toList ++ after) :
      Edit v (old.map .assertion) (new.map .assertion)
        { v with assertions := before ++ new.toList ++ after }

/-- **An edit in one place** (`Edit`) **changes one entry in the list of checks.** -/
theorem Edit.exists_checks {old new : Option Check} (h : Edit v old new w) :
    ∃ before after, v.checks = before ++ old.toList ++ after ∧
      w.checks = before ++ new.toList ++ after := by
  cases h with
  | status new =>
    refine ⟨[], v.headers.entries.map (fun h => .header h.1 h.2) ++ v.assertions.map .assertion,
      ?_, ?_⟩
    · simp [checks, Option.toList_map]
    · simp [checks, Option.toList_map]
  | header name new =>
    obtain ⟨before, after, hcut, hbefore, hafter⟩ := v.headers.exists_entries_around name
    refine ⟨v.statusCode.toList.map .status ++ before.map (fun h => .header h.1 h.2),
      after.map (fun h => .header h.1 h.2) ++ v.assertions.map .assertion, ?_, ?_⟩
    · simp [checks, hcut, Option.toList_map]
    · simp [checks, Table.entries_replace_of_around hcut hbefore hafter, Option.toList_map]
  | assertion before after old new hcut =>
    refine ⟨v.statusCode.toList.map .status ++ v.headers.entries.map (fun h => .header h.1 h.2) ++
      before.map .assertion, after.map .assertion, ?_, ?_⟩
    · simp [checks, hcut, Option.toList_map]
    · simp [checks, Option.toList_map]

/-- **Each failed check is reported once, and independently of the others.**  The failures of a
response (`Verification.check`) are those of the checks which it does not pass (`Check.Passes`),
in the order of `Verification.checks`: the status, the headers in the order of their names, the
assertions in turn.  There are none exactly if it passes every check.  An edit of the verification
in one place (`Edit`) changes the failure of that place and no other. -/
theorem check_one_by_one [Pattern.Engine] (v : Verification) (r : Response) (seen : Option Context)
    (hv : v.FollowableOn r) :
    v.check r seen = .ok (v.checks.filterMap (Check.failure? r seen)) ∧
    (∀ c ∈ v.checks, (c.failure? r seen = none ↔ c.Passes r seen) ∧
      ∀ f, c.failure? r seen = some f → c.Reports r f) ∧
    (v.check r seen = .ok [] ↔ ∀ c ∈ v.checks, c.Passes r seen) ∧
    (∀ old new w, Edit v old new w → w.FollowableOn r →
      ∃ before after,
        v.check r seen =
          .ok (before ++ (old.bind (Check.failure? r seen)).toList ++ after) ∧
        w.check r seen =
          .ok (before ++ (new.bind (Check.failure? r seen)).toList ++ after)) := by
  have hcheck := check_eq_filterMap hv seen
  refine ⟨hcheck, fun c hc => ⟨failure?_eq_none_iff (hv c hc), fun f => reports_of_failure?⟩,
    ?_, ?_⟩
  · rw [hcheck, Except.ok.injEq, List.filterMap_eq_nil_iff]
    exact forall₂_congr fun c hc => failure?_eq_none_iff (hv c hc)
  · intro old new w hedit hw
    obtain ⟨before, after, hold, hnew⟩ := hedit.exists_checks
    -- the place that is edited has one entry or none
    have hplace : ∀ c? : Option Check, c?.toList.filterMap (Check.failure? r seen) =
        (c?.bind (Check.failure? r seen)).toList := by
      intro c?
      cases c? with
      | none => rfl
      | some c => cases hf : c.failure? r seen <;> simp [hf]
    refine ⟨before.filterMap (Check.failure? r seen), after.filterMap (Check.failure? r seen),
      ?_, ?_⟩
    · rw [hcheck, hold, List.filterMap_append, List.filterMap_append, hplace]
    · rw [check_eq_filterMap hw, hnew, List.filterMap_append, List.filterMap_append, hplace]

/-- A verification whose paths are sound can be followed in every response. -/
theorem followableOn_of_isSound [Pattern.Engine]
    (h : ∀ a ∈ v.assertions, isSoundPathText a.path = true) (r : Response) : v.FollowableOn r := by
  intro c hc
  cases c with
  | status | header => exact trivial
  | assertion a =>
    intro document _ hbreaks
    have ha : a ∈ v.assertions := by
      simpa [checks] using hc
    exact not_pathTextBreaksOn (h a ha) document hbreaks.2

namespace Mixed

/-- A status, two headers and two assertions. -/
def verification : Verification :=
  ⟨some 200, .ofList [("x-id", "$\x7bid\x7d"), ("accept", "json")],
    [⟨"$.a", .int 2, "equals"⟩, ⟨"$.b", .null, "exists"⟩], []⟩

/-- A response with another status, a header twice and one of two members. -/
def response : Response := ⟨404, [("X-ID", "7"), ("X-Id", "8")], "\x7b\"a\": 2\x7d"⟩

/-- The variables of the expected header. -/
def context : Context := Context.empty.set "id" (.int 8) none

/-- The verification without its last assertion. -/
def shorter : Verification := { verification with assertions := [⟨"$.a", .int 2, "equals"⟩] }

end Mixed

/-- Four of five checks fail, each with its failure; without the last one the others fail as
before. -/
theorem check_one_by_one_mixed :
    Mixed.verification.FollowableOn Mixed.response ∧
    (Mixed.verification.check Mixed.response (some Mixed.context)).toOption.map
        (fun l => l.map Failure.message) =
      some ["Status code assertion failed: expected 200 but got 404",
        "Header assertion failed: header 'accept' not found in response",
        "Header assertion failed for 'x-id': expected '8' but got '7'",
        "JSONPath does not exist: '$.b'"] ∧
    (∀ c ∈ Mixed.verification.checks,
      (c.failure? Mixed.response (some Mixed.context) = none ↔
        c.Passes Mixed.response (some Mixed.context)) ∧
      ∀ f, c.failure? Mixed.response (some Mixed.context) = some f →
        c.Reports Mixed.response f) ∧
    Mixed.shorter.FollowableOn Mixed.response ∧
    ∃ before f after, f.message = "JSONPath does not exist: '$.b'" ∧
      Mixed.verification.check Mixed.response (some Mixed.context) =
        .ok (before ++ [f] ++ after) ∧
      Mixed.shorter.check Mixed.response (some Mixed.context) = .ok (before ++ after) := by
  have hv : Mixed.verification.FollowableOn Mixed.response := by
    apply followableOn_of_isSound
    decide +kernel
  have hw : Mixed.shorter.FollowableOn Mixed.response := by
    apply followableOn_of_isSound
    decide +kernel
  have hedit : Edit Mixed.verification (some (.assertion ⟨"$.b", .null, "exists"⟩)) none
      Mixed.shorter :=
    .assertion [⟨"$.a", .int 2, "equals"⟩] [] (some ⟨"$.b", .null, "exists"⟩) none rfl
  obtain ⟨-, hchecks, -, hedits⟩ :=
    check_one_by_one Mixed.verification Mixed.response (some Mixed.context) hv
  obtain ⟨before, after, hbefore, hafter⟩ := hedits _ _ _ hedit hw
  have hlast : (Check.failure? Mixed.response (some Mixed.context)
      (.assertion ⟨"$.b", .null, "exists"⟩)).map Failure.message =
        some "JSONPath does not exist: '$.b'" := by decide +kernel
  obtain ⟨f, hf, hmessage⟩ := Option.map_eq_some_iff.1 hlast
  refine ⟨hv, by decide +kernel, hchecks, hw, before, f, after, hmessage, ?_, ?_⟩
  · rw [hbefore, Option.bind_some, hf]
    rfl
  · rw [hafter, Option.bind_none, Option.toList_none, List.append_nil]

end Verification

end RestCase
