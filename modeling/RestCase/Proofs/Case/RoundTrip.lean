/-
# RestCase.Proofs.Case.RoundTrip — cases that were written are read back

A case is written as a document, and the document can be kept in three forms: as it is written or as
a value, in which the members of objects are sorted (both are a `Json.Form`), or as a text.
Whatever a document can hold is read from each of them as what it was (`step_of_form`,
`testCase_of_form`).  A case that was read from a JSON document can be held by one, so it survives
being written and read (`testCase_toJson_of_ofDocument`).

Boundary: a text keeps a document whose numbers are integers.  A binary64 number in a text may come
back as one of its neighbours, since its digits are read with two roundings; the other two forms
keep it.
-/
import RestCase.Case.Writing
import RestCase.Proofs.Case.Storable
import RestCase.Proofs.Json.Spelling

namespace RestCase

open Decoding

/-! ## Forms of a document -/

/-- The document as it is written, or as a value: itself or its `normalize`d form. -/
inductive Json.Form (v : Json) : Json → Prop
  | written : Form v v
  | sorted : Form v v.normalize

/-- The items of a list have the form of the list. -/
theorem Json.Form.exists_items {α : Type} {encode : α → Json} {l : List α} {w : Json}
    (hw : (Json.array (l.map encode)).Form w) :
    ∃ g : α → Json, w = .array (l.map g) ∧ ∀ a, (encode a).Form (g a) := by
  cases hw with
  | written => exact ⟨encode, rfl, fun _ => .written⟩
  | sorted =>
    refine ⟨fun a => (encode a).normalize, ?_, fun _ => .sorted⟩
    rw [normalize, normalizeItems_eq_map, List.map_map]
    rfl

theorem Json.normal_ofHeaders (t : Table String) : (Json.ofHeaders t).Normal := by
  refine .object ?_ (normalMembers_iff.2 ?_)
  · exact List.pairwise_map.2 t.sorted
  · intro e he
    obtain ⟨x, -, rfl⟩ := List.mem_map.1 he
    exact .string x.2

@[simp] theorem Json.normalize_ofHeaders (t : Table String) :
    (Json.ofHeaders t).normalize = Json.ofHeaders t :=
  normalize_of_normal _ (normal_ofHeaders t)

@[simp] theorem Json.normalize_ofOptionalString (s : Option String) :
    (Json.ofOptionalString s).normalize = .ofOptionalString s := by
  cases s <;> rfl

@[simp] theorem Json.normalize_ofOptionalNat (n : Option Nat) :
    (Json.ofOptionalNat n).normalize = .ofOptionalNat n := by
  cases n <;> rfl

namespace Decoding

variable {d : Dialect}

/-! ## Scalars and lists -/

@[simp] theorem method_name (m : Method) : method d (ofDocument (.string m.name)) = .ok m := by
  have hbind : method d (ofDocument (.string m.name)) =
      text d (ofDocument (.string m.name)) >>= fun s => (Method.parse s).mapError .method := rfl
  rw [hbind, text_ofDocument, ok_bind, Method.parse_name]
  rfl

theorem milliseconds_ofDocument {n : Option Nat} (h : ∀ m ∈ n, m ≤ word64.greatest) :
    milliseconds d (ofDocument (.ofOptionalNat n)) = .ok n := by
  cases n with
  | none => rfl
  | some n =>
    have hn : n ≤ word64.greatest := h n rfl
    have hfits : 0 ≤ (n : Int) ∧ (n : Int) ≤ (word64.greatest : Int) := by omega
    simp [Json.ofOptionalNat, ofDocument, milliseconds, hfits]

@[simp] theorem distinctPayload_ofDocument (s : Option String) :
    distinctPayload (ofDocument (.ofOptionalString s)) = .ok s := by
  cases s with
  | none => rfl
  | some s => rfl

/-- **A list is read from any form** when its elements are: from the items of a `Json.Form`. -/
theorem list_of_form {α : Type} {decode : Node → Decoded α} {encode : α → Json} {l : List α}
    {w : Json} (hw : (Json.array (l.map encode)).Form w)
    (h : ∀ a ∈ l, ∀ w, (encode a).Form w → decode (ofDocument w) = .ok a) :
    list d decode (ofDocument w) = .ok l := by
  obtain ⟨g, rfl, hg⟩ := hw.exists_items
  exact list_ofDocument fun a ha => h a ha (g a) (hg a)

/-! ## Records -/

theorem templateVariable_of_form (v : Template.Variable) {w : Json} (hw : v.toJson.Form w) :
    templateVariable d (ofDocument w) = .ok v := by
  have hsorted : v.toJson.normalize = .object [("defaultValue", .ofOptionalString v.defaultValue),
      ("name", .string v.name), ("value", .ofOptionalString v.value)] := by
    simp only [Template.Variable.toJson, Json.normalize, Json.normalizeMembers, Table.insertEntry,
      String.reduceLT, reduceIte, Json.normalize_ofOptionalString]
  rw [templateVariable]
  cases hw with
  | written =>
    rw [Template.Variable.toJson, record_ofDocument]
    simp [VariableDraft.add]
  | sorted =>
    rw [hsorted, record_ofDocument]
    simp [VariableDraft.add]

theorem assertion_of_form {a : PathAssertion} (h : a.Storable) {w : Json}
    (hw : a.toJson.Form w) : assertion d (ofDocument w) = .ok a := by
  have hexpected : anyValue d (ofDocument a.expected) = .ok a.expected := by
    rw [anyValue_ofDocument, Json.normalize_of_normal _ h]
  have hsorted : a.toJson.normalize = .object [("expected", a.expected),
      ("path", .string a.path), ("type", .string a.comparison)] := by
    simp only [PathAssertion.toJson, Json.normalize, Json.normalizeMembers, Table.insertEntry,
      String.reduceLT, reduceIte, Json.normalize_of_normal _ h]
  rw [assertion]
  cases hw with
  | written =>
    rw [PathAssertion.toJson, record_ofDocument]
    simp [AssertionDraft.add, hexpected]
  | sorted =>
    rw [hsorted, record_ofDocument]
    simp [AssertionDraft.add, hexpected]

theorem extraction_of_form {r : ExtractionRule} (h : r.Storable) {w : Json}
    (hw : r.toJson.Form w) : extraction d (ofDocument w) = .ok r := by
  have hnormal : (r.defaultValue.getD .null).Normal :=
    getD_of_forall (fun v hv => (h v hv).1) .null
  -- no default is written as null, which is read as none
  have hdefault : optional (anyValue d) (ofDocument (r.defaultValue.getD .null)) =
      .ok r.defaultValue := by
    cases hvalue : r.defaultValue with
    | none => rfl
    | some v =>
      obtain ⟨hnormal, hnull⟩ := h v hvalue
      refine optional_ofDocument hnull ?_
      rw [Option.getD_some, anyValue_ofDocument, Json.normalize_of_normal _ hnormal]
  -- the members in the order of their names
  have hsorted : r.toJson.normalize = .object [("defaultValue", r.defaultValue.getD .null),
      ("from", .string r.source), ("storeTo", .string r.target)] := by
    simp only [ExtractionRule.toJson, Json.normalize, Json.normalizeMembers, Table.insertEntry,
      String.reduceLT, reduceIte, Json.normalize_of_normal _ hnormal]
  rw [extraction]
  cases hw with
  | written =>
    rw [ExtractionRule.toJson, record_ofDocument]
    simp [ExtractionDraft.add, hdefault]
  | sorted =>
    rw [hsorted, record_ofDocument]
    simp [ExtractionDraft.add, hdefault]

theorem verification_of_form {v : Verification} (h : v.Storable) {w : Json}
    (hw : v.toJson.Form w) : verification d (ofDocument w) = .ok v := by
  have hheaders : table d (text d) (ofDocument (Json.ofHeaders v.headers)) = .ok v.headers :=
    table_ofDocument v.headers
  have hassertions : ∀ w, (Json.array (v.assertions.map PathAssertion.toJson)).Form w →
      list d (assertion d) (ofDocument w) = .ok v.assertions :=
    fun w hw => list_of_form hw fun a ha _ => assertion_of_form (h.assertions a ha)
  have hextractions : ∀ w, (Json.array (v.extractions.map ExtractionRule.toJson)).Form w →
      list d (extraction d) (ofDocument w) = .ok v.extractions :=
    fun w hw => list_of_form hw fun r hr _ => extraction_of_form (h.extractions r hr)
  have hsorted : v.toJson.normalize = .object [
      ("extractions", (Json.array (v.extractions.map ExtractionRule.toJson)).normalize),
      ("headers", Json.ofHeaders v.headers),
      ("jsonPathAssertions", (Json.array (v.assertions.map PathAssertion.toJson)).normalize),
      ("statusCode", .ofOptionalNat v.statusCode)] := by
    simp only [Verification.toJson, Json.normalize, Json.normalizeMembers, Table.insertEntry,
      String.reduceLT, reduceIte, Json.normalize_ofHeaders, Json.normalize_ofOptionalNat]
  rw [verification]
  cases hw with
  | written =>
    rw [Verification.toJson, record_ofDocument]
    simp [VerificationDraft.add, hheaders, hassertions _ .written, hextractions _ .written,
      optional_natural_ofDocument h.statusCode]
  | sorted =>
    rw [hsorted, record_ofDocument]
    simp [VerificationDraft.add, hheaders, hassertions _ .sorted, hextractions _ .sorted,
      optional_natural_ofDocument h.statusCode]

theorem request_of_form {r : RequestSpec} (h : r.Storable) {w : Json} (hw : r.toJson.Form w) :
    request d (ofDocument w) = .ok r := by
  have hheaders : table d (text d) (ofDocument (Json.ofHeaders r.headers)) = .ok r.headers :=
    table_ofDocument r.headers
  have hvariables : ∀ w,
      (Json.array (r.templateVariables.map Template.Variable.toJson)).Form w →
      list d (templateVariable d) (ofDocument w) = .ok r.templateVariables :=
    fun w hw => list_of_form hw fun v _ _ => templateVariable_of_form v
  have htimeout := milliseconds_ofDocument (d := d) h.timeout
  have hconnection := milliseconds_ofDocument (d := d) h.connectionTimeout
  have hsorted : r.toJson.normalize = .object [
      ("connectionTimeout", .ofOptionalNat r.connectionTimeout),
      ("endpoint", .string r.endpoint), ("headers", Json.ofHeaders r.headers),
      ("method", .string r.method.name), ("payload", .ofOptionalString r.payload),
      ("templateVariables",
        (Json.array (r.templateVariables.map Template.Variable.toJson)).normalize),
      ("timeout", .ofOptionalNat r.timeout), ("user", .ofOptionalString r.user)] := by
    simp only [RequestSpec.toJson, Json.normalize, Json.normalizeMembers, Table.insertEntry,
      String.reduceLT, reduceIte, Json.normalize_ofHeaders, Json.normalize_ofOptionalString,
      Json.normalize_ofOptionalNat]
  rw [request]
  cases hw with
  | written =>
    rw [RequestSpec.toJson, record_ofDocument]
    simp [RequestDraft.empty, RequestDraft.add, hheaders, hvariables _ .written, htimeout,
      hconnection]
  | sorted =>
    rw [hsorted, record_ofDocument]
    simp [RequestDraft.empty, RequestDraft.add, hheaders, hvariables _ .sorted, htimeout,
      hconnection]

/-- What a step is written with in place of a verification: null, or what `Verification.toJson`
has written. -/
theorem optional_verification_of_form {x : Option Verification} (h : ∀ v ∈ x, v.Storable)
    {w : Json} (hw : (x.elim .null Verification.toJson).Form w) :
    optional (verification d) (ofDocument w) = .ok x := by
  cases x with
  | none => cases hw <;> rfl
  | some v =>
    have hread : verification d (ofDocument w) = .ok v := verification_of_form (h v rfl) hw
    refine optional_ofDocument ?_ hread
    cases hw with
    | written => simp [Verification.toJson]
    | sorted => simp [Verification.toJson, Json.normalize]

/-- A step as a document, the verification by a name. -/
theorem Step.toJson_eq (s : Step) : s.toJson = .object [("name", .string s.name),
    ("condition", .ofOptionalString s.condition), ("request", s.request.toJson),
    ("verify", s.verification.elim .null Verification.toJson), ("retries", .int s.retries),
    ("retryInterval", .int s.retryInterval), ("service", .ofOptionalString s.service)] := by
  rw [Step.toJson]
  cases s.verification <;> rfl

/-- The value of a step, its members sorted. -/
theorem Step.normalize_toJson (s : Step) : s.toJson.normalize = .object [
    ("condition", .ofOptionalString s.condition), ("name", .string s.name),
    ("request", s.request.toJson.normalize), ("retries", .int s.retries),
    ("retryInterval", .int s.retryInterval), ("service", .ofOptionalString s.service),
    ("verify", (s.verification.elim .null Verification.toJson).normalize)] := by
  simp only [Step.toJson_eq, Json.normalize, Json.normalizeMembers, Table.insertEntry,
    String.reduceLT, reduceIte, Json.normalize_ofOptionalString]

/-- **A step is read from any form** of what `Step.toJson` has written. -/
theorem step_of_form {s : Step} (h : s.Storable) {w : Json} (hw : s.toJson.Form w) :
    step d (ofDocument w) = .ok s := by
  have hrequest : ∀ w, s.request.toJson.Form w → request d (ofDocument w) = .ok s.request :=
    fun w => request_of_form h.request
  have hverify : ∀ w, (s.verification.elim .null Verification.toJson).Form w →
      optional (verification d) (ofDocument w) = .ok s.verification :=
    fun w => optional_verification_of_form h.verification
  have hretries := natural_ofDocument (d := d) h.retries
  have hinterval := natural_ofDocument (d := d) h.retryInterval
  rw [step]
  cases hw with
  | written =>
    rw [Step.toJson_eq, record_ofDocument]
    simp [StepDraft.empty, StepDraft.add, hrequest _ .written, hverify _ .written, hretries,
      hinterval]
  | sorted =>
    rw [Step.normalize_toJson, record_ofDocument]
    simp [StepDraft.empty, StepDraft.add, hrequest _ .sorted, hverify _ .sorted, hretries,
      hinterval]

/-! ## Keys -/

theorem distinct_text (s : String) : distinct (ofDocument (.string s)) = .ok () := rfl

theorem distinct_number (n : Int) : distinct (ofDocument (.int n)) = .ok () := rfl

theorem distinct_ofOptionalString (s : Option String) :
    distinct (ofDocument (.ofOptionalString s)) = .ok () := by
  cases s <;> rfl

theorem distinct_ofOptionalNat (n : Option Nat) :
    distinct (ofDocument (.ofOptionalNat n)) = .ok () := by
  cases n <;> rfl

theorem distinct_ofHeaders (t : Table String) : distinct (ofDocument (Json.ofHeaders t)) = .ok () :=
  distinct_ofDocument _ (Json.normal_ofHeaders t)

/-- The parts of a list have each key once when every part has. -/
theorem distinct_list {α : Type} {encode : α → Json} {l : List α}
    (h : ∀ a ∈ l, distinct (ofDocument (encode a)) = .ok ()) :
    distinct (ofDocument (.array (l.map encode))) = .ok () := by
  refine distinct_array ?_
  intro v hv
  obtain ⟨a, ha, rfl⟩ := List.mem_map.1 hv
  exact h a ha

theorem distinct_templateVariable (v : Template.Variable) :
    distinct (ofDocument v.toJson) = .ok () := by
  refine distinct_object (by simp) ?_
  simp [distinct_text, distinct_ofOptionalString]

theorem distinct_assertion {a : PathAssertion} (h : a.Storable) :
    distinct (ofDocument a.toJson) = .ok () := by
  refine distinct_object (by simp) ?_
  simp [distinct_text, distinct_ofDocument _ h]

theorem distinct_extraction {r : ExtractionRule} (h : r.Storable) :
    distinct (ofDocument r.toJson) = .ok () := by
  have hdefault : (r.defaultValue.getD .null).Normal :=
    getD_of_forall (fun v hv => (h v hv).1) .null
  refine distinct_object (by simp) ?_
  simp [distinct_text, distinct_ofDocument _ hdefault]

theorem distinct_verification {v : Verification} (h : v.Storable) :
    distinct (ofDocument v.toJson) = .ok () := by
  have hassertions := distinct_list fun a ha => distinct_assertion (h.assertions a ha)
  have hextractions := distinct_list fun r hr => distinct_extraction (h.extractions r hr)
  refine distinct_object (by simp) ?_
  simp [distinct_ofOptionalNat, distinct_ofHeaders, hassertions, hextractions]

theorem distinct_request (r : RequestSpec) : distinct (ofDocument r.toJson) = .ok () := by
  have hvariables := distinct_list fun v (_ : v ∈ r.templateVariables) =>
    distinct_templateVariable v
  refine distinct_object (by simp) ?_
  simp [distinct_text, distinct_ofOptionalString, distinct_ofOptionalNat, distinct_ofHeaders,
    hvariables]

theorem distinct_step {s : Step} (h : s.Storable) : distinct (ofDocument s.toJson) = .ok () := by
  have hverify :
      distinct (ofDocument (s.verification.elim .null Verification.toJson)) = .ok () := by
    cases hsome : s.verification with
    | none => rfl
    | some v => exact distinct_verification (h.verification v hsome)
  rw [Step.toJson_eq]
  refine distinct_object (by simp) ?_
  simp [distinct_text, distinct_number, distinct_ofOptionalString, distinct_request, hverify]

theorem distinct_step_of_form {s : Step} (h : s.Storable) {w : Json} (hw : s.toJson.Form w) :
    distinct (ofDocument w) = .ok () := by
  cases hw with
  | written => exact distinct_step h
  | sorted => exact distinct_ofDocument _ (Json.normal_normalize _)

/-! ## Cases -/

/-- A written step stands under no key of its own (`unwrapped`): it has all its fields. -/
theorem unwrapped_of_form {s : Step} {w : Json} (hw : s.toJson.Form w) :
    unwrapped "step" (ofDocument w) = ofDocument w := by
  cases hw with
  | written => exact unwrapped_of_two_entries "step" _ _ _
  | sorted =>
    rw [Step.normalize_toJson]
    exact unwrapped_of_two_entries "step" _ _ _

theorem steps_of_form {l : List Step} (h : ∀ s ∈ l, s.Storable) {w : Json}
    (hw : (Json.array (l.map Step.toJson)).Form w) : steps d (ofDocument w) = .ok l := by
  obtain ⟨g, rfl, hg⟩ := hw.exists_items
  have hitems : itemsOf d (ofDocument (.array (l.map g))) = .ok (ofItems (l.map g)) := by
    unfold itemsOf
    rw [untaggedIn_ofDocument]
    rfl
  have hdistinct : distinctItems (ofItems (l.map g)) = .ok () :=
    distinct_list fun s hs => distinct_step_of_form (h s hs) (hg s)
  have hread : (ofItems (l.map g)).mapM (fun e => step .yaml (unwrapped "step" e)) = .ok l := by
    rw [mapM_eq_ok_iff, ofItems_eq_map, List.map_map, List.forall₂_map_left_iff,
      List.forall₂_same]
    intro s hs
    show step .yaml (unwrapped "step" (ofDocument (g s))) = .ok s
    rw [unwrapped_of_form (hg s)]
    exact step_of_form (h s hs) (hg s)
  -- an array is never null, so the steps are its items
  have hsteps : steps d (ofDocument (.array (l.map g))) =
      itemsOf d (ofDocument (.array (l.map g))) >>= fun entries =>
        distinctItems entries >>= fun _ =>
          entries.mapM fun e => step .yaml (unwrapped "step" e) := rfl
  rw [hsteps, hitems, ok_bind, hdistinct, ok_bind, hread]

/-- **A case is read from any form** of what `TestCase.toJson` has written, if it is `Storable`. -/
theorem testCase_of_form {c : TestCase} (h : c.Storable) {w : Json} (hw : c.toJson.Form w) :
    testCase d (ofDocument w) = .ok c := by
  have hphase : ∀ p w, (Json.array ((c.steps p).map Step.toJson)).Form w →
      steps d (ofDocument w) = .ok (c.steps p) := fun p w => steps_of_form (h p)
  have hpreconditions := hphase .preconditions
  have hsetup := hphase .setup
  have hexecution := hphase .execution
  have hcleanup := hphase .cleanup
  simp only [TestCase.steps] at hpreconditions hsetup hexecution hcleanup
  have hsorted : c.toJson.normalize = .object [
      ("cleanup", (Json.array (c.cleanup.map Step.toJson)).normalize),
      ("description", .ofOptionalString c.description),
      ("execution", (Json.array (c.execution.map Step.toJson)).normalize),
      ("name", .string c.name),
      ("preconditions", (Json.array (c.preconditions.map Step.toJson)).normalize),
      ("setup", (Json.array (c.setup.map Step.toJson)).normalize)] := by
    simp only [TestCase.toJson, Json.normalize, Json.normalizeMembers, Table.insertEntry,
      String.reduceLT, reduceIte, Json.normalize_ofOptionalString]
  rw [testCase]
  cases hw with
  | written =>
    rw [TestCase.toJson, record_ofDocument]
    simp [CaseDraft.add, hpreconditions _ .written, hsetup _ .written, hexecution _ .written,
      hcleanup _ .written]
  | sorted =>
    rw [hsorted, record_ofDocument]
    simp [CaseDraft.add, hpreconditions _ .sorted, hsetup _ .sorted, hexecution _ .sorted,
      hcleanup _ .sorted]

/-! ## Written and read again -/

/-- **A case that was read from a JSON document is read again** from what `TestCase.toJson` writes
for it: from the document as it is written and from its value (`Json.normalize`), whatever numbers
are in it, and also from the text of the document if these are integers (`Json.isIntegral`). -/
theorem testCase_toJson_of_ofDocument (j : Json) (c : TestCase)
    (h : testCase .json (ofDocument j) = .ok c) :
    testCase .json (ofDocument c.toJson) = .ok c ∧
      testCase .json (ofDocument c.toJson.normalize) = .ok c ∧
      (c.toJson.isIntegral = true → c.toJson.depth ≤ Json.maxDepth →
        ofJsonText testCase c.toJson.compact = .ok c) := by
  -- reading gives what writing needs
  have hstorable : c.Storable := gives_testCase _ c (isDocument_ofDocument j) h
  have hwritten : testCase .json (ofDocument c.toJson) = .ok c :=
    testCase_of_form hstorable .written
  refine ⟨hwritten, testCase_of_form hstorable .sorted, ?_⟩
  intro hintegral hdepth
  unfold ofJsonText Json.readDocument Json.compact
  rw [String.toList_ofList, Json.readWhole_render hintegral hdepth]
  exact hwritten

namespace EveryWay

/-- A document that says things in every way there is: a step under `step` and a bare one, second
names of fields, a structured payload that uses such names itself, a method in lower case, times as
a number and as a text, and an expected value whose members are in no order. -/
def document : Json :=
  .object [("name", .string "every way"), ("preconditions", .null),
    ("setup", .array [.object [("step", .object [("name", .string "seed"), ("request", .object [
      ("method", .string " post "), ("url", .string "/seed"),
      ("payload", .object [("value", .array [.bool true, .null]), ("endpoint", .string "x")]),
      ("timeout", .string " +250 "), ("connectionTimeout", .int 3)])])]]),
    ("execution", .array [.object [("name", .string "read"),
      ("request", .object [("endpoint", .string "/items")]),
      ("verify", .object [("status", .int 200),
        ("jsonPathAssertions", .array [.object [("path", .string "$.a"),
          ("value", .object [("b", .int (-2)), ("a", .null)])]]),
        ("extractions", .array [.object [("jsonPath", .string "$.id"),
          ("variableName", .string "id"), ("defaultValue", .array [.null])]])])]]),
    ("cleanup", .array [])]

/-- The case that the document describes. -/
def testCase : TestCase where
  name := "every way"
  description := none
  preconditions := []
  setup := [.plain "seed" { RequestSpec.plain .post "/seed" with
    payload := some "\x7b\"value\":[true,null],\"endpoint\":\"x\"\x7d"
    timeout := some 250
    connectionTimeout := some 3 }]
  execution := [{ Step.plain "read" (.plain .get "/items") with
    verification := some ⟨some 200, .empty,
      [⟨"$.a", .object [("a", .null), ("b", .int (-2))], "equals"⟩],
      [⟨"$.id", "id", some (.array [.null])⟩]⟩ }]
  cleanup := []

end EveryWay

/-- What was said in every way is written in one, and read again as what it was. -/
theorem testCase_toJson_of_ofDocument_everyWay :
    testCase .json (ofDocument EveryWay.document) = .ok EveryWay.testCase ∧
      testCase .json (ofDocument EveryWay.testCase.toJson) = .ok EveryWay.testCase ∧
      testCase .json (ofDocument EveryWay.testCase.toJson.normalize) = .ok EveryWay.testCase ∧
      ofJsonText testCase EveryWay.testCase.toJson.compact = .ok EveryWay.testCase := by
  have hread : testCase .json (ofDocument EveryWay.document) = .ok EveryWay.testCase := rfl
  obtain ⟨hwritten, hsorted, htext⟩ := testCase_toJson_of_ofDocument _ _ hread
  have hintegral : EveryWay.testCase.toJson.isIntegral = true := by decide
  have hdepth : EveryWay.testCase.toJson.depth ≤ Json.maxDepth := by decide
  exact ⟨hread, hwritten, hsorted, htext hintegral hdepth⟩

end Decoding

end RestCase
