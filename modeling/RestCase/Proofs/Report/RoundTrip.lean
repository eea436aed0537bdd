/-
# RestCase.Proofs.Report.RoundTrip — what a report keeps

A report in JSON is an indented text.  The text is read as the document that was written, the
results that stand in the document are read as what they were, and so nothing of them is lost: not
the order, nor any message, response, variable or time.  The summary stands beside them
(`render_json_lossless`).

As in the round trip of cases, what can be kept is said record by record (`CaseResult.Kept`), and
each record is read from the document as it was written and from the value, in which the members are
sorted (`caseResult_of_form`).  That the report is a document which a text keeps is
`isIntegral_document` and `depth_document_le`.

Boundary: what is kept is a `CaseResult.Kept`.  The numbers in its values are integers of 64 bits,
no value nests more than a hundred levels deep, the counts fit their words and the times lie in the
calendar.
-/
import RestCase.Case.ResultReading
import RestCase.Proofs.Case.RoundTrip
import RestCase.Proofs.Clock.RoundTrip
import RestCase.Proofs.Json.Indented
import RestCase.Report.Format

namespace RestCase

open Decoding

/-! ## What a report can keep -/

/-- The value is in normal form, its numbers are integers, and it is not nested too deeply. -/
structure Json.Kept (v : Json) : Prop where
  normal : v.Normal
  integral : v.isIntegral = true
  shallow : v.depth ≤ 100

/-- The status fits its word. -/
def Response.Kept (r : Response) : Prop := r.status ≤ word16.greatest

/-- The counts fit their words. -/
structure ExecutedStep.Kept (s : ExecutedStep) : Prop where
  attempts : s.attempts ≤ word32.greatest
  duration : s.duration ≤ word64.greatest

/-- The values can be kept, with their origins or without. -/
structure Context.Kept (ctx : Context) : Prop where
  values : ∀ e ∈ ctx.values.entries, e.2.Kept
  tracking : ∀ e ∈ ctx.tracking.entries, e.2.value.Kept

/-- The counts fit their words, the times lie in the calendar (`Instant.Valid`), and the parts can
be kept (`Response.Kept`, `ExecutedStep.Kept`, `Context.Kept`). -/
structure CaseResult.Kept (r : CaseResult) : Prop where
  executed : ∀ s ∈ r.executed, s.Kept
  lastResponse : ∀ p ∈ r.lastResponse, p.Kept
  context : r.context.Kept
  startedAt : r.startedAt.Valid
  finishedAt : r.finishedAt.Valid
  duration : r.duration ≤ word64.greatest

/-! ## Tables in any form -/

/-- The members of an object whose keys are sorted keep their places. -/
theorem Json.normalize_object_of_sorted {l : List (String × Json)}
    (h : l.Pairwise (fun a b => a.1 < b.1)) :
    normalize (object l) = object (l.map fun e => (e.1, e.2.normalize)) := by
  have hsorted : (l.map fun e => (e.1, e.2.normalize)).Pairwise (fun a b => a.1 < b.1) :=
    List.pairwise_map.2 h
  have hmembers : NormalMembers (l.map fun e => (e.1, e.2.normalize)) := by
    refine normalMembers_iff.2 ?_
    intro e he
    obtain ⟨x, -, rfl⟩ := List.mem_map.1 he
    exact normal_normalize x.2
  rw [← normalize_of_normal _ (.object hsorted hmembers), normalize, normalize,
    normalizeMembers_map_normalize]

/-- The values of a table have the form of the table. -/
theorem Json.Form.exists_entries {α : Type} {encode : α → Json} {t : Table α} {w : Json}
    (hw : (Json.ofTable (t.map fun _ a => encode a)).Form w) :
    ∃ g : α → Json, w = .object (t.entries.map fun e => (e.1, g e.2)) ∧
      ∀ a, (encode a).Form (g a) := by
  cases hw with
  | written => exact ⟨encode, rfl, fun _ => .written⟩
  | sorted =>
    refine ⟨fun a => (encode a).normalize, ?_, fun _ => .sorted⟩
    rw [ofTable, normalize_object_of_sorted (t.map _).sorted, Table.map, List.map_map]
    rfl

namespace Decoding

variable {d : Dialect}

/-- **A table is read from any form** when its values are. -/
theorem table_of_form {α : Type} {decode : Node → Decoded α} {encode : α → Json} {t : Table α}
    {w : Json} (hw : (Json.ofTable (t.map fun _ a => encode a)).Form w)
    (h : ∀ e ∈ t.entries, ∀ w, (encode e.2).Form w → decode (ofDocument w) = .ok e.2) :
    table d decode (ofDocument w) = .ok t := by
  obtain ⟨g, rfl, hg⟩ := hw.exists_entries
  exact table_map_ofDocument t fun e he => h e he (g e.2) (hg e.2)

/-! ## Parts of results -/

theorem text_of_form {s : String} {w : Json} (hw : (Json.string s).Form w) :
    text d (ofDocument w) = .ok s := by
  cases hw <;> exact text_ofDocument s

theorem anyValue_of_form {v : Json} (h : v.Normal) {w : Json} (hw : v.Form w) :
    anyValue d (ofDocument w) = .ok v := by
  cases hw with
  | written => rw [anyValue_ofDocument, Json.normalize_of_normal v h]
  | sorted => rw [Json.normalize_of_normal v h, anyValue_ofDocument, Json.normalize_of_normal v h]

theorem instant_ofDocument {t : Instant} (h : t.Valid) :
    instant d (ofDocument (.string t.text)) = .ok t := by
  rw [instant, untaggedIn_ofDocument]
  simp [ofDocument, Instant.parse_text h, Except.mapError]

@[simp] theorem truth_ofDocument (b : Bool) : truth d (ofDocument (.bool b)) = .ok b := by
  rw [truth, untaggedIn_ofDocument]
  rfl

@[simp] theorem phase_name (p : Phase) :
    oneOf d (Phase.all.map fun p => (p.name, p)) (ofDocument (.string p.name)) = .ok p := by
  rw [oneOf, untaggedIn_ofDocument]
  cases p <;> rfl

@[simp] theorem status_name (s : StepStatus) :
    oneOf d (StepStatus.all.map fun s => (s.name, s)) (ofDocument (.string s.name)) = .ok s := by
  rw [oneOf, untaggedIn_ofDocument]
  cases s <;> rfl

theorem textPair_of_form {h : String × String} {w : Json}
    (hw : (Json.array [.string h.1, .string h.2]).Form w) : textPair d (ofDocument w) = .ok h := by
  have hread : textPair d (ofDocument (.array [.string h.1, .string h.2])) = .ok h := by
    rw [textPair, untaggedIn_ofDocument]
    simp only [ofDocument, ofItems]
    rw [← ofDocument, ← ofDocument, text_ofDocument, text_ofDocument]
    rfl
  cases hw <;> exact hread

/-! ## Records -/

theorem response_of_form {r : Response} (h : r.Kept) {w : Json} (hw : r.toJson.Form w) :
    response d (ofDocument w) = .ok r := by
  have hstatus := natural_ofDocument (d := d) h
  have hheaders : ∀ w,
      (Json.array (r.headers.map fun h => .array [.string h.1, .string h.2])).Form w →
      list d (textPair d) (ofDocument w) = .ok r.headers :=
    fun w hw => list_of_form hw fun h _ _ => textPair_of_form
  have hsorted : r.toJson.normalize = .object [("body", .string r.body),
      ("headers",
        (Json.array (r.headers.map fun h => .array [.string h.1, .string h.2])).normalize),
      ("status", .int r.status)] := by
    simp only [Response.toJson, Json.normalize, Json.normalizeMembers, Table.insertEntry,
      String.reduceLT, reduceIte]
  rw [response]
  cases hw with
  | written =>
    rw [Response.toJson, record_ofDocument]
    simp [ResponseDraft.add, hstatus, hheaders _ .written]
  | sorted =>
    rw [hsorted, record_ofDocument]
    simp [ResponseDraft.add, hstatus, hheaders _ .sorted]

theorem executedStep_of_form {s : ExecutedStep} (h : s.Kept) {w : Json} (hw : s.toJson.Form w) :
    executedStep d (ofDocument w) = .ok s := by
  have hattempts := natural_ofDocument (d := d) h.attempts
  have hduration := natural_ofDocument (d := d) h.duration
  have hsorted : s.toJson.normalize = .object [("attempts", .int s.attempts),
      ("durationMs", .int s.duration), ("name", .string s.name),
      ("phase", .string s.phase.name), ("status", .string s.status.name)] := by
    simp only [ExecutedStep.toJson, Json.normalize, Json.normalizeMembers, Table.insertEntry,
      String.reduceLT, reduceIte]
  rw [executedStep]
  cases hw with
  | written =>
    rw [ExecutedStep.toJson, record_ofDocument]
    simp [ExecutedDraft.add, hattempts, hduration]
  | sorted =>
    rw [hsorted, record_ofDocument]
    simp [ExecutedDraft.add, hattempts, hduration]

theorem tracked_of_form {t : Tracked} (h : t.value.Normal) {w : Json} (hw : t.toJson.Form w) :
    tracked d (ofDocument w) = .ok t := by
  have hvalue : anyValue d (ofDocument t.value) = .ok t.value := anyValue_of_form h .written
  have hsorted : t.toJson.normalize = .object [("path", .string t.origin.path),
      ("sourceStep", .string t.origin.step), ("value", t.value)] := by
    simp only [Tracked.toJson, Json.normalize, Json.normalizeMembers, Table.insertEntry,
      String.reduceLT, reduceIte, Json.normalize_of_normal _ h]
  rw [tracked]
  cases hw with
  | written =>
    rw [Tracked.toJson, record_ofDocument]
    simp [TrackedDraft.add, hvalue]
  | sorted =>
    rw [hsorted, record_ofDocument]
    simp [TrackedDraft.add, hvalue]

/-- What a result is written with in place of a response. -/
theorem optional_response_of_form {x : Option Response} (h : ∀ r ∈ x, r.Kept) {w : Json}
    (hw : (x.elim .null Response.toJson).Form w) :
    optional (response d) (ofDocument w) = .ok x := by
  cases x with
  | none => cases hw <;> rfl
  | some r =>
    have hread : response d (ofDocument w) = .ok r := response_of_form (h r rfl) hw
    refine optional_ofDocument ?_ hread
    cases hw with
    | written => simp [Response.toJson]
    | sorted => simp [Response.toJson, Json.normalize]

/-- A result as a document, the response by a name. -/
theorem CaseResult.toJson_eq (r : CaseResult) : r.toJson = .object [("name", .string r.name),
    ("description", .ofOptionalString r.description), ("passed", .bool r.passed),
    ("failureMessages", .array (r.failures.map .string)),
    ("cleanupWarnings", .array (r.cleanupWarnings.map .string)),
    ("executedSteps", .array (r.executed.map ExecutedStep.toJson)),
    ("lastResponse", r.lastResponse.elim .null Response.toJson),
    ("variables", .ofTable (r.context.values.map fun _ v => v)),
    ("variableTracking", .ofTable (r.context.tracking.map fun _ t => t.toJson)),
    ("startedAt", .string r.startedAt.text), ("finishedAt", .string r.finishedAt.text),
    ("durationMs", .int r.duration)] := by
  have hvalues : (r.context.values.map fun _ v => v) = r.context.values := by
    simp [Table.map]
  rw [CaseResult.toJson, hvalues]
  cases r.lastResponse <;> rfl

/-- The value of a result, its members sorted. -/
theorem CaseResult.normalize_toJson (r : CaseResult) : r.toJson.normalize = .object [
    ("cleanupWarnings", (Json.array (r.cleanupWarnings.map .string)).normalize),
    ("description", .ofOptionalString r.description), ("durationMs", .int r.duration),
    ("executedSteps", (Json.array (r.executed.map ExecutedStep.toJson)).normalize),
    ("failureMessages", (Json.array (r.failures.map .string)).normalize),
    ("finishedAt", .string r.finishedAt.text),
    ("lastResponse", (r.lastResponse.elim .null Response.toJson).normalize),
    ("name", .string r.name), ("passed", .bool r.passed),
    ("startedAt", .string r.startedAt.text),
    ("variableTracking", (Json.ofTable (r.context.tracking.map fun _ t => t.toJson)).normalize),
    ("variables", (Json.ofTable (r.context.values.map fun _ v => v)).normalize)] := by
  simp only [CaseResult.toJson_eq, Json.normalize, Json.normalizeMembers, Table.insertEntry,
    String.reduceLT, reduceIte, Json.normalize_ofOptionalString]

/-- **A result is read from any form** of what `CaseResult.toJson` has written, if it is `Kept`. -/
theorem caseResult_of_form {r : CaseResult} (h : r.Kept) {w : Json} (hw : r.toJson.Form w) :
    result d (ofDocument w) = .ok r := by
  have htexts : ∀ (l : List String) w, (Json.array (l.map .string)).Form w →
      list d (text d) (ofDocument w) = .ok l :=
    fun l w hw => list_of_form hw fun s _ _ => text_of_form
  have hexecuted : ∀ w, (Json.array (r.executed.map ExecutedStep.toJson)).Form w →
      list d (executedStep d) (ofDocument w) = .ok r.executed :=
    fun w hw => list_of_form hw fun s hs _ => executedStep_of_form (h.executed s hs)
  have hresponse : ∀ w, (r.lastResponse.elim .null Response.toJson).Form w →
      optional (response d) (ofDocument w) = .ok r.lastResponse :=
    fun w => optional_response_of_form h.lastResponse
  have hvalues : ∀ w, (Json.ofTable (r.context.values.map fun _ v => v)).Form w →
      table d (anyValue d) (ofDocument w) = .ok r.context.values :=
    fun w hw => table_of_form hw fun e he _ => anyValue_of_form (h.context.values e he).normal
  have htracking : ∀ w, (Json.ofTable (r.context.tracking.map fun _ t => t.toJson)).Form w →
      table d (tracked d) (ofDocument w) = .ok r.context.tracking :=
    fun w hw => table_of_form hw fun e he _ => tracked_of_form (h.context.tracking e he).normal
  have hstarted := instant_ofDocument (d := d) h.startedAt
  have hfinished := instant_ofDocument (d := d) h.finishedAt
  have hduration := natural_ofDocument (d := d) h.duration
  rw [result]
  cases hw with
  | written =>
    rw [CaseResult.toJson_eq, record_ofDocument]
    simp [ResultDraft.empty, ResultDraft.add, htexts _ _ .written, hexecuted _ .written,
      hresponse _ .written, hvalues _ .written, htracking _ .written, hstarted, hfinished,
      hduration]
  | sorted =>
    rw [CaseResult.normalize_toJson, record_ofDocument]
    simp [ResultDraft.empty, ResultDraft.add, htexts _ _ .sorted, hexecuted _ .sorted,
      hresponse _ .sorted, hvalues _ .sorted, htracking _ .sorted, hstarted, hfinished,
      hduration]

end Decoding

/-! ## The report as a document that a text keeps -/

section Text

open Json

theorem isWord_natCast {n : Nat} (h : n ≤ word64.greatest) : IsWord (n : Int) := by
  have hgreatest : word64.greatest = 0xFFFFFFFFFFFFFFFF := rfl
  unfold IsWord
  omega

/-- Elements become items that a text keeps when each of them does. -/
theorem integralItems_map {α : Type} {encode : α → Json} {l : List α}
    (h : ∀ a ∈ l, (encode a).isIntegral = true) : integralItems (l.map encode) = true := by
  rw [integralItems_iff]
  intro v hv
  obtain ⟨a, ha, rfl⟩ := List.mem_map.1 hv
  exact h a ha

theorem itemsDepth_map_le {α : Type} {encode : α → Json} {l : List α} {n : Nat}
    (h : ∀ a ∈ l, (encode a).depth ≤ n) : itemsDepth (l.map encode) ≤ n := by
  rw [itemsDepth_le_iff]
  intro v hv
  obtain ⟨a, ha, rfl⟩ := List.mem_map.1 hv
  exact h a ha

/-- The values of a table become members that a text keeps when each of them does. -/
theorem integralMembers_map {α : Type} (encode : α → Json) {t : Table α}
    (h : ∀ e ∈ t.entries, (encode e.2).isIntegral = true) :
    integralMembers (t.map fun _ a => encode a).entries = true := by
  rw [integralMembers_iff]
  intro e he
  obtain ⟨x, hx, rfl⟩ := List.mem_map.1 he
  exact h x hx

theorem membersDepth_map_le {α : Type} (encode : α → Json) {t : Table α} {n : Nat}
    (h : ∀ e ∈ t.entries, (encode e.2).depth ≤ n) :
    membersDepth (t.map fun _ a => encode a).entries ≤ n := by
  rw [membersDepth_le_iff]
  intro e he
  obtain ⟨x, hx, rfl⟩ := List.mem_map.1 he
  exact h x hx

@[simp] theorem isIntegral_ofOptionalString (s : Option String) :
    (ofOptionalString s).isIntegral = true := by
  cases s <;> rfl

@[simp] theorem depth_ofOptionalString (s : Option String) : (ofOptionalString s).depth = 0 := by
  cases s <;> rfl

theorem isIntegral_response {x : Option Response} (h : ∀ r ∈ x, r.Kept) :
    (x.elim .null Response.toJson).isIntegral = true := by
  cases x with
  | none => rfl
  | some r =>
    have hstatus : IsWord (r.status : Int) :=
      isWord_natCast (Nat.le_trans (h r rfl) (by decide))
    have hheaders :
        integralItems (r.headers.map fun h => .array [.string h.1, .string h.2]) = true :=
      integralItems_map fun _ _ => rfl
    simp [Response.toJson, isIntegral, integralMembers, hstatus, hheaders]

theorem depth_response_le (x : Option Response) : (x.elim .null Response.toJson).depth ≤ 3 := by
  cases x with
  | none => exact Nat.zero_le 3
  | some r =>
    have hheaders : itemsDepth (r.headers.map fun h => .array [.string h.1, .string h.2]) ≤ 1 :=
      itemsDepth_map_le fun _ _ => Nat.le_refl 1
    simp only [Option.elim_some, Response.toJson, depth, membersDepth]
    omega

theorem isIntegral_executedStep {s : ExecutedStep} (h : s.Kept) : s.toJson.isIntegral = true := by
  have hattempts : IsWord (s.attempts : Int) :=
    isWord_natCast (Nat.le_trans h.attempts (by decide))
  have hduration : IsWord (s.duration : Int) := isWord_natCast h.duration
  simp [ExecutedStep.toJson, isIntegral, integralMembers, hattempts, hduration]

theorem isIntegral_tracked {t : Tracked} (h : t.value.Kept) : t.toJson.isIntegral = true := by
  simp [Tracked.toJson, isIntegral, integralMembers, h.integral]

theorem depth_tracked_le {t : Tracked} (h : t.value.Kept) : t.toJson.depth ≤ 101 := by
  have hvalue := h.shallow
  simp only [Tracked.toJson, depth, membersDepth]
  omega

/-- **A result is a document that a text keeps** (`isIntegral`), if it is `Kept`. -/
theorem CaseResult.isIntegral_toJson {r : CaseResult} (h : r.Kept) :
    r.toJson.isIntegral = true := by
  have htexts : ∀ l : List String, integralItems (l.map .string) = true :=
    fun l => integralItems_map fun _ _ => rfl
  have hexecuted : integralItems (r.executed.map ExecutedStep.toJson) = true :=
    integralItems_map fun s hs => isIntegral_executedStep (h.executed s hs)
  have hvalues : integralMembers (r.context.values.map fun _ v => v).entries = true :=
    integralMembers_map id fun e he => (h.context.values e he).integral
  have htracking : integralMembers (r.context.tracking.map fun _ t => t.toJson).entries = true :=
    integralMembers_map Tracked.toJson fun e he => isIntegral_tracked (h.context.tracking e he)
  have hduration : IsWord (r.duration : Int) := isWord_natCast h.duration
  simp [Decoding.CaseResult.toJson_eq, isIntegral, integralMembers, ofTable, htexts, hexecuted,
    isIntegral_response h.lastResponse, hvalues, htracking, hduration]

theorem CaseResult.depth_toJson_le {r : CaseResult} (h : r.Kept) : r.toJson.depth ≤ 103 := by
  have htexts : ∀ l : List String, itemsDepth (l.map .string) ≤ 0 :=
    fun l => itemsDepth_map_le fun _ _ => Nat.le_refl 0
  have hfailures := htexts r.failures
  have hwarnings := htexts r.cleanupWarnings
  have hexecuted : itemsDepth (r.executed.map ExecutedStep.toJson) ≤ 1 :=
    itemsDepth_map_le fun _ _ => Nat.le_refl 1
  have hresponse := depth_response_le r.lastResponse
  have hvalues : membersDepth (r.context.values.map fun _ v => v).entries ≤ 100 :=
    membersDepth_map_le id fun e he => (h.context.values e he).shallow
  have htracking : membersDepth (r.context.tracking.map fun _ t => t.toJson).entries ≤ 101 :=
    membersDepth_map_le Tracked.toJson fun e he => depth_tracked_le (h.context.tracking e he)
  rw [Decoding.CaseResult.toJson_eq]
  simp only [depth, membersDepth, ofTable, depth_ofOptionalString]
  omega

end Text

namespace Report

variable {results : List CaseResult}

/-- **The report is a document that a text keeps** (`isIntegral`), whenever it was made. -/
theorem isIntegral_document (h : ∀ r ∈ results, r.Kept)
    (hcount : results.length ≤ word64.greatest) (generatedAt : LocalTime) :
    (document results generatedAt).isIntegral = true := by
  have hresults : Json.integralItems (results.map CaseResult.toJson) = true :=
    integralItems_map fun r hr => CaseResult.isIntegral_toJson (h r hr)
  have htotal : Json.IsWord ((Summary.ofResults results).total : Int) := isWord_natCast hcount
  have hpassed : Json.IsWord ((Summary.ofResults results).passed : Int) :=
    isWord_natCast (Nat.le_trans (Summary.passed_le_total results) hcount)
  have hfailed : Json.IsWord ((Summary.ofResults results).failed : Int) :=
    isWord_natCast (Nat.le_trans (Nat.sub_le _ _) hcount)
  have hrate : Json.IsWord ((Summary.ofResults results).successRate : Int) :=
    isWord_natCast (Nat.le_trans (Summary.successRate_le results) (by decide))
  simp [document, Summary.toJson, Json.isIntegral, Json.integralMembers, hresults, htotal, hpassed,
    hfailed, hrate]

theorem depth_document_le (h : ∀ r ∈ results, r.Kept) (generatedAt : LocalTime) :
    (document results generatedAt).depth ≤ Json.maxDepth := by
  have hresults : Json.itemsDepth (results.map CaseResult.toJson) ≤ 103 :=
    itemsDepth_map_le fun r hr => CaseResult.depth_toJson_le (h r hr)
  have hmax : Json.maxDepth = 127 := rfl
  simp only [document, Summary.toJson, Json.depth, Json.membersDepth]
  omega

/-! ## Reports that were written are read back -/

/-- The results and their summary can be taken from the document, with `Decoding.results`. -/
structure Holds (v : Json) (results : List CaseResult) : Prop where
  listed : ∃ w, v.member? "results" = some w ∧ Decoding.results .json (ofDocument w) = .ok results
  counted : ∃ w, v.member? "summary" = some w ∧ (Summary.ofResults results).toJson.Form w

/-- The value of a report (`document`), its members sorted. -/
theorem normalize_document (results : List CaseResult) (generatedAt : LocalTime) :
    (document results generatedAt).normalize = .object [
      ("generatedAt", .string generatedAt.text),
      ("results", (Json.array (results.map CaseResult.toJson)).normalize),
      ("summary", (Summary.ofResults results).toJson.normalize)] := by
  simp only [document, Json.normalize, Json.normalizeMembers, Table.insertEntry, String.reduceLT,
    reduceIte]

theorem holds_of_form (h : ∀ r ∈ results, r.Kept) {generatedAt : LocalTime} {v : Json}
    (hv : (document results generatedAt).Form v) : Holds v results := by
  have hresults : ∀ w, (Json.array (results.map CaseResult.toJson)).Form w →
      Decoding.results .json (ofDocument w) = .ok results :=
    fun w hw => list_of_form hw fun r hr _ => caseResult_of_form (h r hr)
  cases hv with
  | written =>
    refine ⟨⟨_, document_results results generatedAt, hresults _ .written⟩, _, ?_, .written⟩
    simp [document, Json.member?, Table.lookup]
  | sorted =>
    rw [normalize_document]
    refine ⟨⟨_, ?_, hresults _ .sorted⟩, _, ?_, .sorted⟩ <;> simp [Json.member?, Table.lookup]

/-- **The JSON report is lossless.**  The text of a report (`Report.render`), whenever it was
made, is read as a document, and as a value; and each of them `Holds` exactly the results that the
report is about, with the summary of them beside. -/
theorem render_json_lossless (results : List CaseResult) (generatedAt : LocalTime)
    (h : ∀ r ∈ results, r.Kept) (hcount : results.length ≤ word64.greatest) :
    (∃ v, Json.readDocument (render .json results generatedAt) = .ok v ∧ Holds v results) ∧
      ∃ v, Json.parse (render .json results generatedAt) = .ok v ∧ Holds v results := by
  have hintegral := isIntegral_document h hcount generatedAt
  have hdepth := depth_document_le h generatedAt
  constructor
  · exact ⟨_, Json.readDocument_indented hintegral hdepth, holds_of_form h .written⟩
  · exact ⟨_, Json.parse_indented hintegral hdepth, holds_of_form h .sorted⟩

namespace EveryField

/-- What a step found: a text like a report, and a number that only an unsigned word holds. -/
def found : Json := .object [("a", .array [.string "\"results\": [", .int 0xFFFFFFFFFFFFFFFF])]

/-- A result in which every field has something to lose: characters that are escaped, a header that
comes twice, a variable with an origin and one without, and times at the edges of the calendar. -/
def caseResult : CaseResult where
  name := "quote \" and \\"
  description := some ""
  passed := false
  failures := ["line\nend", "\x00"]
  cleanupWarnings := ["left over"]
  executed := [⟨.setup, "seed", .passed, 3, 12⟩, ⟨.execution, "read", .failed, 1, 0⟩,
    ⟨.cleanup, "drop", .skipped, 0, 0⟩]
  lastResponse := some ⟨500, [("Set-Cookie", "a"), ("set-cookie", "b")], "\x7b\"a\":1.5\x7d"⟩
  context := (Context.empty.set "id" found (some ⟨"seed", "$.a"⟩)).set "none" .null none
  startedAt := ⟨-96465292, 0, 1000⟩
  finishedAt := ⟨17166, 86399, 1999999999⟩
  duration := 12

theorem kept_found : found.Kept where
  normal := .object (List.pairwise_singleton _ _)
    (.cons (.array (.cons (.string _) (.cons (.int _) .nil))) .nil)
  integral := by decide
  shallow := by decide

theorem kept_null : Json.null.Kept := ⟨.null, rfl, Nat.zero_le 100⟩

theorem kept_context : caseResult.context.Kept where
  values := by
    have hentries : caseResult.context.values.entries = [("id", found), ("none", .null)] := rfl
    rw [hentries]
    simp [kept_found, kept_null]
  tracking := by
    have hentries : caseResult.context.tracking.entries = [("id", ⟨found, ⟨"seed", "$.a"⟩⟩)] := rfl
    rw [hentries]
    simp [kept_found]

theorem kept_caseResult : caseResult.Kept where
  executed := by
    intro s hs
    simp only [caseResult, List.mem_cons, List.not_mem_nil, or_false] at hs
    rcases hs with rfl | rfl | rfl <;> constructor <;> decide
  lastResponse := by
    rintro p ⟨⟩
    show 500 ≤ word16.greatest
    decide
  context := kept_context
  startedAt := by constructor <;> decide +kernel
  finishedAt := by constructor <;> decide +kernel
  duration := by decide

end EveryField

/-- Nothing is lost of a result that has something to lose in every field. -/
theorem render_json_lossless_everyField :
    (∀ r ∈ [EveryField.caseResult], r.Kept) ∧
      [EveryField.caseResult].length ≤ word64.greatest ∧
      ∃ v, Json.parse (render .json [EveryField.caseResult] ⟨⟨19724, 11045, 0⟩, 7200⟩) = .ok v ∧
        Holds v [EveryField.caseResult] := by
  have hkept : ∀ r ∈ [EveryField.caseResult], r.Kept := by simp [EveryField.kept_caseResult]
  have hcount : [EveryField.caseResult].length ≤ word64.greatest := by decide
  exact ⟨hkept, hcount, (render_json_lossless _ _ hkept hcount).2⟩

end Report

end RestCase
