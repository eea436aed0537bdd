/-
# RestCase.Proofs.Case.Building — what is built can be written down and read again

`RestCase.Case.Building` puts steps together call by call.  `RequestSpec.Built`,
`Verification.Built` and `Step.Built` hold of exactly what comes of such calls, one constructor for
each of them; what a call is given has to fit a document, as the calls themselves do not look at it.

Every call keeps what a document can hold (`RequestSpec.Built.storable`,
`Verification.Built.storable`, `Step.Built.storable`, by induction over the calls), and so a case of
built steps is read again from what it is written as (`TestCase.testCase_toJson_of_built`).  Users
and times of a request are not set by any call, so there are documents that nothing built is written
as.
-/
import RestCase.Case.Building
import RestCase.Proofs.Case.RoundTrip

namespace RestCase

open Decoding

/-! ## Calls -/

/-- A request that is put together from a plain one by `withHeader`, `withPayload` and
`withVariable`. -/
inductive RequestSpec.Built : RequestSpec → Prop
  | plain (method : Method) (endpoint : String) : Built (.plain method endpoint)
  | header {r : RequestSpec} (h : Built r) (name value : String) : Built (r.withHeader name value)
  | payload {r : RequestSpec} (h : Built r) (text : String) : Built (r.withPayload text)
  | template {r : RequestSpec} (h : Built r) (name value : String) :
      Built (r.withVariable name value)

/-- A verification that is put together from one of a `status`, or from one that checks nothing. -/
inductive Verification.Built : Verification → Prop
  | empty : Built .empty
  | status {code : Nat} (h : code ≤ word16.greatest) : Built (.status code)
  | assertion {v : Verification} (h : Built v) {a : PathAssertion} (ha : a.Storable) :
      Built (v.withAssertion a)
  | extraction {v : Verification} (h : Built v) {r : ExtractionRule} (hr : r.Storable) :
      Built (v.withExtraction r)

/-- A step that is put together from one with a request alone. -/
inductive Step.Built : Step → Prop
  | plain (name : String) {r : RequestSpec} (h : r.Built) : Built (.plain name r)
  | condition {s : Step} (h : Built s) (condition : String) : Built (s.withCondition condition)
  | verification {s : Step} (h : Built s) {v : Verification} (hv : v.Built) :
      Built (s.withVerification v)
  | retries {s : Step} (h : Built s) {retries interval : Nat} (hretries : retries ≤ word32.greatest)
      (hinterval : interval ≤ word64.greatest) : Built (s.withRetries retries interval)

theorem PathAssertion.storable_equals (path : String) {expected : Json} (h : expected.Normal) :
    (PathAssertion.equals path expected).Storable := h

/-- A step of every kind of call. -/
example : ((Step.plain "read" (((RequestSpec.plain .post "/items").withHeader "Accept" "text/plain")
      |>.withPayload "\x7b\x7bid\x7d\x7d" |>.withVariable "id" "1")).withCondition "true"
    |>.withVerification ((Verification.status 200).withAssertion (.equals "$.id" (.int 1))
      |>.withExtraction ⟨"$.id", "id", none⟩)
    |>.withRetries 3 100).Built :=
  .retries (.verification (.condition (.plain _
      (.template (.payload (.header (.plain _ _) _ _) _) _ _)) _)
    (.extraction (.assertion (.status (by decide)) (PathAssertion.storable_equals _ (.int 1)))
      (by rintro v ⟨⟩))) (by decide) (by decide)

/-! ## What a document can hold -/

/-- No call sets a time. -/
theorem RequestSpec.Built.storable {r : RequestSpec} (h : r.Built) : r.Storable := by
  induction h with
  | plain method endpoint => exact ⟨nofun, nofun⟩
  | header _ _ _ ih | payload _ _ ih | template _ _ _ ih => exact ⟨ih.timeout, ih.connectionTimeout⟩

theorem Verification.Built.storable {v : Verification} (h : v.Built) : v.Storable := by
  induction h with
  | empty => exact ⟨nofun, List.forall_mem_nil _, List.forall_mem_nil _⟩
  | status hcode =>
    refine ⟨?_, List.forall_mem_nil _, List.forall_mem_nil _⟩
    rintro n ⟨⟩
    exact hcode
  | assertion _ ha ih =>
    exact ⟨ih.statusCode, List.forall_mem_append.2 ⟨ih.assertions, List.forall_mem_singleton.2 ha⟩,
      ih.extractions⟩
  | extraction _ hr ih =>
    exact ⟨ih.statusCode, ih.assertions,
      List.forall_mem_append.2 ⟨ih.extractions, List.forall_mem_singleton.2 hr⟩⟩

theorem Step.Built.storable {s : Step} (h : s.Built) : s.Storable := by
  induction h with
  | plain name hr => exact ⟨hr.storable, nofun, Nat.zero_le _, Nat.zero_le _⟩
  | condition _ _ ih => exact ⟨ih.request, ih.verification, ih.retries, ih.retryInterval⟩
  | verification _ hv ih =>
    refine ⟨ih.request, ?_, ih.retries, ih.retryInterval⟩
    rintro v ⟨⟩
    exact hv.storable
  | retries _ hretries hinterval ih => exact ⟨ih.request, ih.verification, hretries, hinterval⟩

/-! ## Written and read again -/

/-- **A case of built steps is read again** by `Decoding.testCase` from what it is written as by
`TestCase.toJson`: its steps are `Storable`. -/
theorem TestCase.testCase_toJson_of_built {c : TestCase} (h : ∀ p, ∀ s ∈ c.steps p, s.Built)
    (d : Dialect) :
    testCase d (ofDocument c.toJson) = .ok c ∧
      testCase d (ofDocument c.toJson.normalize) = .ok c := by
  have hstorable : c.Storable := fun p s hs => (h p s hs).storable
  exact ⟨testCase_of_form hstorable .written, testCase_of_form hstorable .sorted⟩

end RestCase
