/-
# RestCase.Proofs.Case.Spellings — the spellings of a test case

A test case document can say one thing in several ways.  The document may stand under a key `test`,
a step under a key `step`; five fields have a second name; a time may be a number or its decimal
text.  The relations of this module say, level by level, how a node of the document is respelled:
only where a field is read, so that an expected value, a default or a payload with keys of the same
names stays as it is.

Each decoder keeps the respelling of its level (`keeps_step`, `keeps_steps`, `keeps_testCase`).  For
a field with two names this comes down to one fact, that the place of the field is filled once,
whichever name it is filled by; `filledOnce_places` has it for all five.  A document is then read as
the same case in whatever way it is spelled (`ofNode_respelled`).
-/
import RestCase.Case.Document
import RestCase.Proofs.Chars.Decimals
import RestCase.Proofs.Decoding.Respelling

namespace RestCase

open Decoding

/-! ## Respelling a document -/

/-- A time written as its decimal text, which `milliseconds` reads alike. -/
def TimeRespelled (v v' : Node) : Prop := ∃ n : Int, v = .int n ∧ v' = .string (Text.ofInt n)

/-- The second name of an assertion's field. -/
def assertionNames : List (List String) := [["expected", "value"]]

/-- An assertion respelled, its fields by `assertionNames`. -/
def AssertionRespelled : Node → Node → Prop := RecordRespelled assertionNames fun _ _ _ => False

/-- The second names of an extraction rule's fields. -/
def extractionNames : List (List String) := [["from", "jsonPath"], ["storeTo", "variableName"]]

/-- An extraction rule respelled, its fields by `extractionNames`. -/
def ExtractionRespelled : Node → Node → Prop := RecordRespelled extractionNames fun _ _ _ => False

/-- The second name of a verification's field. -/
def verificationNames : List (List String) := [["statusCode", "status"]]

/-- A verification respelled, with its assertions and its extraction rules. -/
def VerificationRespelled : Node → Node → Prop :=
  RecordRespelled verificationNames fun field v v' =>
    (field = "jsonPathAssertions" ∧ ListRespelled AssertionRespelled v v') ∨
      (field = "extractions" ∧ ListRespelled ExtractionRespelled v v')

/-- The second name of a request's field. -/
def requestNames : List (List String) := [["endpoint", "url"]]

/-- A request respelled, with its times (`TimeRespelled`). -/
def RequestRespelled : Node → Node → Prop :=
  RecordRespelled requestNames fun field v v' =>
    (field = "timeout" ∨ field = "connectionTimeout") ∧ TimeRespelled v v'

/-- A step respelled, with its request (`RequestRespelled`) and its verification
(`VerificationRespelled`). -/
def StepRespelled : Node → Node → Prop :=
  RecordRespelled [] fun field v v' =>
    (field = "request" ∧ RequestRespelled v v') ∨ (field = "verify" ∧ VerificationRespelled v v')

/-- A node under a key. -/
def wrapped (key : String) (v : Node) : Node := .mapping [(.string key, v)]

/-- An entry of a phase respelled: its step, bare or `wrapped` under the key `step`. -/
def StepEntryRespelled (e e' : Node) : Prop :=
  ∃ s, StepRespelled (unwrapped "step" e) s ∧ (e' = s ∨ e' = wrapped "step" s)

/-- The fields of a case that hold steps. -/
def phaseFields : List String := Phase.all.map Phase.name

/-- A case respelled, with its steps (`StepEntryRespelled`) in each of `phaseFields`. -/
def CaseRespelled : Node → Node → Prop :=
  RecordRespelled [] fun field v v' =>
    field ∈ phaseFields ∧ ListRespelled StepEntryRespelled v v'

/-- A document respelled: its case (`CaseRespelled`), bare or under the key `test`. -/
def DocumentRespelled (v v' : Node) : Prop :=
  ∃ c, CaseRespelled v c ∧ (v' = c ∨ v' = wrapped "test" c)

namespace Decoding

/-! ## Times -/

/-- The decimal text of a time is read as the time. -/
theorem keeps_milliseconds : Keeps (milliseconds .yaml) TimeRespelled := by
  rintro v v' a ⟨n, rfl, rfl⟩ ha
  have hfits : 0 ≤ n ∧ n ≤ (word64.greatest : Int) := by
    by_contra hnot
    simp [milliseconds, hnot] at ha
  have hnumber : milliseconds .yaml (.int n) = .ok (some n.toNat) := by simp [milliseconds, hfits]
  obtain rfl := Except.ok.inj (hnumber.symm.trans ha)
  refine ⟨?_, fun _ => rfl⟩
  show Except.ok (Text.toNatUpTo? word64.greatest (Text.trim (Text.ofInt n))) = _
  rw [Text.toNatUpTo?_trim_ofInt hfits.1 hfits.2]

/-- Each place of a record that has two names is `FilledOnce`. -/
theorem filledOnce_places :
    FilledOnce (AssertionDraft.add .yaml) ["expected", "value"] (·.expected ≠ none) ∧
      FilledOnce (ExtractionDraft.add .yaml) ["from", "jsonPath"] (·.source ≠ none) ∧
      FilledOnce (ExtractionDraft.add .yaml) ["storeTo", "variableName"] (·.target ≠ none) ∧
      FilledOnce (VerificationDraft.add .yaml) ["statusCode", "status"] (·.statusCode ≠ none) ∧
      FilledOnce (RequestDraft.add .yaml) ["endpoint", "url"] (·.endpoint ≠ none) := by
  refine ⟨.of_readAt AssertionDraft.expected ?_, .of_readAt ExtractionDraft.source ?_,
    .of_readAt ExtractionDraft.target ?_, .of_readAt VerificationDraft.statusCode ?_,
    .of_readAt RequestDraft.endpoint ?_⟩
  -- one case for each name that a record knows, and one for all that it does not know
  all_goals
    intro r f v
    first
      | unfold AssertionDraft.add
      | unfold ExtractionDraft.add
      | unfold VerificationDraft.add
      | unfold RequestDraft.add
    split
    all_goals first
      | exact .own (by decide) fun _ => rfl
      | exact .other (by decide) fun _ => rfl
      | exact .unknown (by simp_all)

/-! ## Assertions and extraction rules -/

theorem interchangeable_assertion :
    Interchangeable (AssertionDraft.add .yaml) assertionNames fun _ _ _ => False where
  alike := by simp [assertionNames, AssertionDraft.add]
  once := by
    intro g hg
    obtain rfl := List.mem_singleton.1 hg
    exact ⟨_, filledOnce_places.1⟩
  apart := by decide
  values := by
    intro r r' f v v' hinner
    exact hinner.elim

theorem keeps_assertion : Keeps (assertion .yaml) AssertionRespelled :=
  interchangeable_assertion.keeps_record.bind _

theorem interchangeable_extraction :
    Interchangeable (ExtractionDraft.add .yaml) extractionNames fun _ _ _ => False where
  alike := by simp [extractionNames, ExtractionDraft.add]
  once := by
    intro g hg
    simp only [extractionNames, List.mem_cons, List.not_mem_nil, or_false] at hg
    rcases hg with rfl | rfl
    · exact ⟨_, filledOnce_places.2.1⟩
    · exact ⟨_, filledOnce_places.2.2.1⟩
  apart := by decide
  values := by
    intro r r' f v v' hinner
    exact hinner.elim

theorem keeps_extraction : Keeps (extraction .yaml) ExtractionRespelled :=
  interchangeable_extraction.keeps_record.bind _

/-! ## Verifications and requests -/

theorem interchangeable_verification :
    Interchangeable (VerificationDraft.add .yaml) verificationNames fun field v v' =>
      (field = "jsonPathAssertions" ∧ ListRespelled AssertionRespelled v v') ∨
        (field = "extractions" ∧ ListRespelled ExtractionRespelled v v') where
  alike := by simp [verificationNames, VerificationDraft.add]
  once := by
    intro g hg
    obtain rfl := List.mem_singleton.1 hg
    exact ⟨_, filledOnce_places.2.2.2.1⟩
  apart := by decide
  values := by
    rintro r r' f v v' (⟨rfl, hv⟩ | ⟨rfl, hv⟩) h
    · simp only [VerificationDraft.add] at h ⊢
      exact keeps_assertion.list.fill_bind hv h
    · simp only [VerificationDraft.add] at h ⊢
      exact keeps_extraction.list.fill_bind hv h

theorem keeps_verification : Keeps (verification .yaml) VerificationRespelled :=
  interchangeable_verification.keeps_record.bind _

theorem interchangeable_request :
    Interchangeable (RequestDraft.add .yaml) requestNames fun field v v' =>
      (field = "timeout" ∨ field = "connectionTimeout") ∧ TimeRespelled v v' where
  alike := by simp [requestNames, RequestDraft.add]
  once := by
    intro g hg
    obtain rfl := List.mem_singleton.1 hg
    exact ⟨_, filledOnce_places.2.2.2.2⟩
  apart := by decide
  values := by
    rintro r r' f v v' ⟨rfl | rfl, hv⟩ h
    · simp only [RequestDraft.add] at h ⊢
      exact keeps_milliseconds.fill_bind hv h
    · simp only [RequestDraft.add] at h ⊢
      exact keeps_milliseconds.fill_bind hv h

theorem keeps_request : Keeps (request .yaml) RequestRespelled :=
  interchangeable_request.keeps_record.bind _

/-! ## Steps -/

theorem interchangeable_step :
    Interchangeable (StepDraft.add .yaml) [] fun field v v' =>
      (field = "request" ∧ RequestRespelled v v') ∨
        (field = "verify" ∧ VerificationRespelled v v') where
  alike := by simp
  once := by simp
  apart := by simp
  values := by
    rintro r r' f v v' (⟨rfl, hv⟩ | ⟨rfl, hv⟩) h
    · simp only [StepDraft.add] at h ⊢
      exact keeps_request.fill_bind hv h
    · have hoptional := keeps_verification.optional fun _ _ hv => RecordRespelled.null_iff hv
      simp only [StepDraft.add] at h ⊢
      exact hoptional.fill_bind hv h

/-- **A step is read as the same step**, however it is spelled (`StepRespelled`). -/
theorem keeps_step : Keeps (step .yaml) StepRespelled :=
  interchangeable_step.keeps_record.bind _

@[simp] theorem unwrapped_wrapped (key : String) (v : Node) :
    unwrapped key (wrapped key v) = v := by
  simp [unwrapped, wrapped]

theorem distinct_wrapped {key : String} {v : Node} :
    distinct (wrapped key v) = .ok () ↔ distinct v = .ok () := by
  rw [wrapped, distinct, distinctEntries_eq_ok_iff]
  have hkey : distinct (.string key) = .ok () := rfl
  simp [hkey]

/-- A node stands under the key, or it is what is looked at. -/
theorem unwrapped_cases (key : String) (v : Node) :
    v = wrapped key (unwrapped key v) ∨ unwrapped key v = v := by
  unfold unwrapped
  split
  · split
    · next hkey =>
      subst hkey
      exact Or.inl rfl
    · exact Or.inr rfl
  · exact Or.inr rfl

/-- A record with one entry, of a field that is not known, is the empty record. -/
theorem record_wrapped {δ : Type} {layout : Layout} {empty : δ}
    {add : δ → String → Node → Decoded δ} {key : String} {v : Node}
    (h : add empty key v = .ok empty) :
    record .yaml layout empty add (wrapped key v) = .ok empty := by
  have hentry : readEntry add empty (.string key, v) = .ok empty :=
    readEntry_eq_ok_iff.2 ⟨key, rfl, h⟩
  have huntagged : (wrapped key v).untagged = .mapping [(.string key, v)] := rfl
  rw [record_of_untagged huntagged, List.foldlM_cons, hentry]
  rfl

/-- A step has a name, so it is no node under the key `step`. -/
theorem unwrapped_of_step {v : Node} {s : Step} (h : step .yaml v = .ok s) :
    unwrapped "step" v = v := by
  rcases unwrapped_cases "step" v with hv | hv
  · rw [hv, step, record_wrapped rfl] at h
    cases h
  · exact hv

/-- An entry of a phase is read as the same step, bare or under a key. -/
theorem keeps_stepEntry :
    Keeps (fun e => step .yaml (unwrapped "step" e)) StepEntryRespelled := by
  rintro e e' a ⟨s, hs, he'⟩ ha
  obtain ⟨hread, hdistinct⟩ := keeps_step _ s a hs ha
  have hinner : distinct e = .ok () → distinct (unwrapped "step" e) = .ok () := by
    intro he
    rcases unwrapped_cases "step" e with hwrapped | hbare
    · rw [hwrapped] at he
      exact distinct_wrapped.1 he
    · rw [hbare]
      exact he
  rcases he' with rfl | rfl
  · show step .yaml (unwrapped "step" e') = .ok a ∧ _
    rw [unwrapped_of_step hread]
    exact ⟨hread, fun he => hdistinct (hinner he)⟩
  · show step .yaml (unwrapped "step" (wrapped "step" s)) = .ok a ∧ _
    rw [unwrapped_wrapped]
    exact ⟨hread, fun he => distinct_wrapped.2 (hdistinct (hinner he))⟩

theorem steps_of_untagged {v : Node} {items : List Node} (h : v.untagged = .sequence items) :
    steps .yaml v = distinctItems items >>= fun _ =>
      items.mapM fun e => step .yaml (unwrapped "step" e) := by
  have hitems : itemsOf .yaml v = .ok items := itemsOf_of_untagged h
  unfold steps
  split
  · cases h
  · rw [hitems]
    rfl

/-- **The steps of a phase are read as the same steps**, however they are spelled. -/
theorem keeps_steps : Keeps (steps .yaml) (ListRespelled StepEntryRespelled) := by
  intro v v' l hv hl
  rcases hv with rfl | ⟨items, items', hv, hv', hitems⟩
  · exact ⟨hl, id⟩
  · rw [steps_of_untagged hv] at hl
    obtain ⟨_, hdistinct, hread⟩ := bind_eq_ok_iff.1 hl
    obtain ⟨hreads, hkeeps⟩ := keeps_stepEntry.items hitems (mapM_eq_ok_iff.1 hread)
    rw [steps_of_untagged hv', distinct_of_untagged_sequence hv, distinct_of_untagged_sequence hv']
    exact ⟨bind_eq_ok_iff.2 ⟨_, hkeeps hdistinct, mapM_eq_ok_iff.2 hreads⟩, hkeeps⟩

/-! ## Cases -/

theorem interchangeable_testCase :
    Interchangeable (CaseDraft.add .yaml) [] fun field v v' =>
      field ∈ phaseFields ∧ ListRespelled StepEntryRespelled v v' where
  alike := by simp
  once := by simp
  apart := by simp
  values := by
    rintro r r' f v v' ⟨hf, hv⟩ h
    simp only [phaseFields, Phase.all, Phase.name, List.map_cons, List.map_nil, List.mem_cons,
      List.not_mem_nil, or_false] at hf
    rcases hf with rfl | rfl | rfl | rfl
    all_goals
      simp only [CaseDraft.add] at h ⊢
      exact keeps_steps.fill_bind hv h

/-- **A case is read as the same case**, however it is spelled (`CaseRespelled`). -/
theorem keeps_testCase : Keeps (testCase .yaml) CaseRespelled :=
  interchangeable_testCase.keeps_record.bind _

/-- A case has a name, so it is no node under the key `test`. -/
theorem unwrapped_of_testCase {v : Node} {c : TestCase} (h : testCase .yaml v = .ok c) :
    unwrapped "test" v = v := by
  rcases unwrapped_cases "test" v with hv | hv
  · rw [hv, testCase, record_wrapped rfl] at h
    cases h
  · exact hv

end Decoding

namespace TestCase

/-! ## Documents -/

/-- The case of a document tree: `Decoding.testCase` of what is `unwrapped`, inlined and checked. -/
def ofNode (files : PayloadFiles) (document : Node) : Except DocumentFault TestCase :=
  match (Decoding.testCase .yaml (unwrapped "test" document)).mapError .unfit with
  | .error fault => .error fault
  | .ok c =>
    match c.inlined files with
    | .error fault => .error fault
    | .ok d => d.checked

/-- The case of a text is the case of its tree. -/
theorem ofYaml_eq_ofNode {files : PayloadFiles} {text : String} {document : Node}
    (h : Yaml.node? text = some document) : ofYaml files text = ofNode files document := by
  rw [ofYaml, described, h]
  rfl

theorem ofNode_eq_ok_iff {files : PayloadFiles} {document : Node} {d : TestCase} :
    ofNode files document = .ok d ↔
      ∃ c, Decoding.testCase .yaml (unwrapped "test" document) = .ok c ∧
        ∃ c', c.inlined files = .ok c' ∧ c'.checked = .ok d := by
  unfold ofNode
  cases Decoding.testCase .yaml (unwrapped "test" document) with
  | error fault => simp [Except.mapError]
  | ok c =>
    cases hc : c.inlined files with
    | error fault => simp [Except.mapError, hc]
    | ok c' => simp [Except.mapError, hc]

/-- The document is a mapping with an entry `name` of its own; tags do not matter. -/
def HasName (document : Node) : Prop :=
  ∃ entries, document.untagged = .mapping entries ∧ ∃ e ∈ entries, e.1.untagged = .string "name"

theorem HasName.unwrapped_eq {document : Node} (h : HasName document) :
    unwrapped "test" document = document := by
  obtain ⟨entries, huntagged, e, he, hkey⟩ := h
  rcases unwrapped_cases "test" document with hwrapped | hbare
  · rw [hwrapped] at huntagged
    obtain rfl : [(.string "test", _)] = entries := Node.mapping.inj huntagged
    obtain rfl := List.mem_singleton.1 he
    simp [Node.untagged] at hkey
  · exact hbare

/-- **The spellings of a document mean the same.**  A document that `HasName` and is accepted by
`ofNode` is accepted as the same case however it is respelled (`DocumentRespelled`), as a tree and
as any text of the tree (`ofYaml`): under a key `test`, with steps under keys `step`, with other
names of the fields and with times as texts, all of it at any places at once. -/
theorem ofNode_respelled {files : PayloadFiles} {document document' : Node} {c : TestCase}
    (hname : HasName document) (h : DocumentRespelled document document')
    (hc : ofNode files document = .ok c) :
    ofNode files document' = .ok c ∧
      ∀ text, Yaml.node? text = some document' → ofYaml files text = .ok c := by
  obtain ⟨read, hread, hrest⟩ := ofNode_eq_ok_iff.1 hc
  rw [hname.unwrapped_eq] at hread
  obtain ⟨inner, hinner, hdocument'⟩ := h
  have hread' : Decoding.testCase .yaml inner = .ok read :=
    (keeps_testCase document inner read hinner hread).1
  have hunwrapped : unwrapped "test" document' = inner := by
    rcases hdocument' with rfl | rfl
    · exact unwrapped_of_testCase hread'
    · exact unwrapped_wrapped "test" inner
  have hresult : ofNode files document' = .ok c :=
    ofNode_eq_ok_iff.2 ⟨read, hunwrapped ▸ hread', hrest⟩
  refine ⟨hresult, ?_⟩
  intro text htext
  rw [ofYaml_eq_ofNode htext]
  exact hresult

namespace TwoSpellings

/-- The request of the first step: a first name, a time as a number, and a payload with keys that
are names of fields elsewhere. -/
def request : Node :=
  .mapping [(.string "method", .string "POST"), (.string "endpoint", .string "/seed"),
    (.string "payload",
      .mapping [(.string "endpoint", .string "x"), (.string "value", .bool true)]),
    (.string "timeout", .int 250)]

/-- The request with a second name and the time as a text. -/
def request' : Node :=
  .mapping [(.string "method", .string "POST"), (.string "url", .string "/seed"),
    (.string "payload",
      .mapping [(.string "endpoint", .string "x"), (.string "value", .bool true)]),
    (.string "timeout", .string "250")]

/-- The verification of the second step: first names, and an expected value with a key that is the
name of a field elsewhere. -/
def verification : Node :=
  .mapping [(.string "statusCode", .int 200),
    (.string "jsonPathAssertions", .sequence [.mapping [(.string "path", .string "$.a"),
      (.string "expected", .mapping [(.string "statusCode", .null)])]]),
    (.string "extractions", .sequence [.mapping [(.string "from", .string "$.id"),
      (.string "storeTo", .string "id")]])]

/-- The verification with second names. -/
def verification' : Node :=
  .mapping [(.string "status", .int 200),
    (.string "jsonPathAssertions", .sequence [.mapping [(.string "path", .string "$.a"),
      (.string "value", .mapping [(.string "statusCode", .null)])]]),
    (.string "extractions", .sequence [.mapping [(.string "jsonPath", .string "$.id"),
      (.string "variableName", .string "id")]])]

/-- A document with a bare step and a step under a key. -/
def document : Node :=
  .mapping [(.string "name", .string "spellings"),
    (.string "setup", .sequence [
      .mapping [(.string "name", .string "seed"), (.string "request", request)]]),
    (.string "execution", .sequence [wrapped "step" (
      .mapping [(.string "name", .string "read"),
        (.string "request", .mapping [(.string "url", .string "/items")]),
        (.string "verify", verification)])])]

/-- The document under a key, with the first step under a key and the second one bare. -/
def document' : Node :=
  wrapped "test" (.mapping [(.string "name", .string "spellings"),
    (.string "setup", .sequence [wrapped "step" (
      .mapping [(.string "name", .string "seed"), (.string "request", request')])]),
    (.string "execution", .sequence [
      .mapping [(.string "name", .string "read"),
        (.string "request", .mapping [(.string "endpoint", .string "/items")]),
        (.string "verify", verification')]])])

/-- The case that both describe. -/
def case : TestCase where
  name := "spellings"
  description := none
  preconditions := []
  setup := [.plain "seed" { RequestSpec.plain .post "/seed" with
    payload := some "\x7b\"endpoint\":\"x\",\"value\":true\x7d"
    timeout := some 250 }]
  execution := [{ Step.plain "read" (.plain .get "/items") with
    verification := some ⟨some 200, .empty,
      [⟨"$.a", .object [("statusCode", .null)], "equals"⟩], [⟨"$.id", "id", none⟩]⟩ }]
  cleanup := []

theorem request_respelled : RequestRespelled request request' := by
  have htime : TimeRespelled (.int 250) (.string "250") :=
    ⟨250, rfl, congrArg Node.string (by decide +kernel)⟩
  apply RecordRespelled.of_entries
  exact .cons .kept (.cons (.renamed (by decide)) (.cons .kept
    (.cons (.changed ⟨Or.inl rfl, htime⟩) .nil)))

theorem verification_respelled : VerificationRespelled verification verification' := by
  have hassertion : AssertionRespelled
      (.mapping [(.string "path", .string "$.a"),
        (.string "expected", .mapping [(.string "statusCode", .null)])])
      (.mapping [(.string "path", .string "$.a"),
        (.string "value", .mapping [(.string "statusCode", .null)])]) :=
    .of_entries (.cons .kept (.cons (.renamed (by decide)) .nil))
  have hextraction : ExtractionRespelled
      (.mapping [(.string "from", .string "$.id"), (.string "storeTo", .string "id")])
      (.mapping [(.string "jsonPath", .string "$.id"), (.string "variableName", .string "id")]) :=
    .of_entries (.cons (.renamed (by decide)) (.cons (.renamed (by decide)) .nil))
  apply RecordRespelled.of_entries
  exact .cons (.renamed (by decide))
    (.cons (.changed (Or.inl ⟨rfl, .of_items (.cons hassertion .nil)⟩))
      (.cons (.changed (Or.inr ⟨rfl, .of_items (.cons hextraction .nil)⟩)) .nil))

theorem document_respelled : DocumentRespelled document document' := by
  have hseed : StepEntryRespelled
      (.mapping [(.string "name", .string "seed"), (.string "request", request)])
      (wrapped "step" (
        .mapping [(.string "name", .string "seed"), (.string "request", request')])) :=
    ⟨_, .of_entries (.cons .kept (.cons (.changed (Or.inl ⟨rfl, request_respelled⟩)) .nil)),
      Or.inr rfl⟩
  have hread : StepEntryRespelled
      (wrapped "step" (.mapping [(.string "name", .string "read"),
        (.string "request", .mapping [(.string "url", .string "/items")]),
        (.string "verify", verification)]))
      (.mapping [(.string "name", .string "read"),
        (.string "request", .mapping [(.string "endpoint", .string "/items")]),
        (.string "verify", verification')]) := by
    have hrequest : RequestRespelled (.mapping [(.string "url", .string "/items")])
        (.mapping [(.string "endpoint", .string "/items")]) :=
      .of_entries (.cons (.renamed (by decide)) .nil)
    exact ⟨_, .of_entries (.cons .kept (.cons (.changed (Or.inl ⟨rfl, hrequest⟩))
      (.cons (.changed (Or.inr ⟨rfl, verification_respelled⟩)) .nil))), Or.inl rfl⟩
  refine ⟨_, .of_entries ?_, Or.inr rfl⟩
  exact .cons .kept (.cons (.changed ⟨by decide, .of_items (.cons hseed .nil)⟩)
    (.cons (.changed ⟨by decide, .of_items (.cons hread .nil)⟩) .nil))

end TwoSpellings

/-- Two spellings of one case, the second one with every kind of rewriting in it. -/
theorem ofNode_respelled_twoSpellings :
    HasName TwoSpellings.document ∧
      DocumentRespelled TwoSpellings.document TwoSpellings.document' ∧
      ofNode .none TwoSpellings.document = .ok TwoSpellings.case ∧
      ofNode .none TwoSpellings.document' = .ok TwoSpellings.case := by
  have hname : HasName TwoSpellings.document := ⟨_, rfl, _, List.mem_cons_self, rfl⟩
  have hread : ofNode .none TwoSpellings.document = .ok TwoSpellings.case := rfl
  have hrespelled := TwoSpellings.document_respelled
  exact ⟨hname, hrespelled, hread, (ofNode_respelled hname hrespelled hread).1⟩

end TestCase

end RestCase
