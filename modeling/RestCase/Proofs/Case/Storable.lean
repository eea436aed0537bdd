/-
# RestCase.Proofs.Case.Storable — cases that a document can hold

A case in memory may hold what no document says: a number beyond its word, a value whose members are
in no order, a default that is null and yet a default.  A case that was read from a JSON document
holds none of this (`gives_testCase`): it is `Storable`.

The argument is the same at every level.  Each field keeps what is asked of the draft
(`StepDraft.Storable.add` and its like), so the draft of the whole record has it, and so has what is
made of the draft.
-/
import RestCase.Case.Reading
import RestCase.Proofs.Decoding.Documents

namespace RestCase

open Decoding

/-! ## What a document can hold -/

/-- The expected value is in normal form. -/
def PathAssertion.Storable (a : PathAssertion) : Prop := a.expected.Normal

/-- The default, if there is one, is in normal form and not null. -/
def ExtractionRule.Storable (r : ExtractionRule) : Prop :=
  ∀ v ∈ r.defaultValue, v.Normal ∧ v ≠ .null

/-- The status fits its word, and the parts can be held. -/
structure Verification.Storable (v : Verification) : Prop where
  statusCode : ∀ n ∈ v.statusCode, n ≤ word16.greatest
  assertions : ∀ a ∈ v.assertions, a.Storable
  extractions : ∀ r ∈ v.extractions, r.Storable

/-- The times fit their word. -/
structure RequestSpec.Storable (r : RequestSpec) : Prop where
  timeout : ∀ n ∈ r.timeout, n ≤ word64.greatest
  connectionTimeout : ∀ n ∈ r.connectionTimeout, n ≤ word64.greatest

/-- The numbers fit their words, and the parts can be held. -/
structure Step.Storable (s : Step) : Prop where
  request : s.request.Storable
  verification : ∀ v ∈ s.verification, v.Storable
  retries : s.retries ≤ word32.greatest
  retryInterval : s.retryInterval ≤ word64.greatest

/-- Every step can be held by a document (`Step.Storable`). -/
def TestCase.Storable (c : TestCase) : Prop := ∀ p, ∀ s ∈ c.steps p, s.Storable

namespace Decoding

variable {d : Dialect}

/-! ## Values, numbers and times -/

theorem anyValue_ofDocument (v : Json) : anyValue d (ofDocument v) = .ok v.normalize := by
  cases d with
  | json => rw [anyValue, toValue_ofDocument, Except.map, Json.normalize_normalize]
  | yaml => exact toValue_ofDocument v

theorem gives_anyValue : Gives (anyValue d) Json.Normal := by
  rintro v a ⟨j, rfl⟩ ha
  rw [anyValue_ofDocument] at ha
  obtain rfl := Except.ok.inj ha
  exact Json.normal_normalize j

/-- Where null stands for no value, nothing else is read as null. -/
theorem gives_optional_anyValue :
    Gives (optional (anyValue d)) fun x => ∀ v ∈ x, v.Normal ∧ v ≠ .null := by
  rintro v x ⟨j, rfl⟩ hx a rfl
  rcases optional_eq_ok_iff.1 hx with ⟨-, hnone⟩ | ⟨hnull, b, hb, hsome⟩
  · cases hnone
  · obtain rfl := Option.some.inj hsome
    refine ⟨gives_anyValue _ _ (isDocument_ofDocument j) hb, ?_⟩
    rw [anyValue_ofDocument] at hb
    -- only null has null as its normal form
    rintro rfl
    cases j with
    | null => exact hnull rfl
    | _ => cases hb

theorem gives_natural (word : Word) : Gives (natural word d) (· ≤ word.greatest) := by
  intro v n _ hn
  unfold natural at hn
  split at hn
  · split at hn
    · next hfits =>
      obtain rfl := Except.ok.inj hn
      show Int.toNat _ ≤ word.greatest
      omega
    · cases hn
  · cases hn

theorem gives_milliseconds : Gives (milliseconds d) fun x => ∀ n ∈ x, n ≤ word64.greatest := by
  rintro v x - hx n rfl
  unfold milliseconds at hx
  -- null, a number, a text, and what is no time
  split at hx
  · cases hx
  · split at hx
    · next hfits =>
      obtain rfl := Option.some.inj (Except.ok.inj hx)
      omega
    · cases hx
  · have hfits := Except.ok.inj hx
    simpa using (Option.filter_eq_some_iff.1 hfits).2
  · split at hx <;> cases hx

/-! ## What is made of a draft -/

variable {α : Type} {P : α → Prop}

/-- A field that may be null and may be missing. -/
theorem forall_mem_join {place : Option (Option α)} (h : ∀ x ∈ place, ∀ a ∈ x, P a) :
    ∀ a ∈ place.join, P a := by
  intro a ha
  have hplace : place = some (some a) := Option.join_eq_some_iff.1 ha
  exact h (some a) hplace a rfl

/-- A list that may be missing. -/
theorem forall_mem_getD_nil {place : Option (List α)} (h : ∀ l ∈ place, ∀ a ∈ l, P a) :
    ∀ a ∈ place.getD [], P a := by
  cases place with
  | none => simp
  | some l => exact h l rfl

/-- A value that stands for a missing one. -/
theorem getD_of_forall {place : Option α} {a : α} (h : ∀ b ∈ place, P b) (ha : P a) :
    P (place.getD a) := by
  cases place with
  | none => exact ha
  | some b => exact h b rfl

/-! ## Assertions and extraction rules -/

/-- The expected value so far is in normal form. -/
def AssertionDraft.Storable (r : AssertionDraft) : Prop := ∀ v ∈ r.expected, v.Normal

theorem AssertionDraft.Storable.add {r r' : AssertionDraft} {field : String} {v : Node}
    (hv : IsDocument v) (hr : r.Storable) (h : r.add d field v = .ok r') : r'.Storable := by
  unfold AssertionDraft.add at h
  split at h
  · obtain ⟨-, path, -, rfl⟩ := fill_bind_eq_ok_iff.1 h
    exact hr
  · obtain ⟨-, expected, hexpected, rfl⟩ := fill_bind_eq_ok_iff.1 h
    exact gives_anyValue.filled hv hexpected
  · obtain ⟨-, expected, hexpected, rfl⟩ := fill_bind_eq_ok_iff.1 h
    exact gives_anyValue.filled hv hexpected
  · obtain ⟨-, comparison, -, rfl⟩ := fill_bind_eq_ok_iff.1 h
    exact hr
  · obtain rfl := Except.ok.inj h
    exact hr

theorem gives_assertion : Gives (assertion d) PathAssertion.Storable := by
  intro v a hv ha
  obtain ⟨r, hr, ha⟩ := bind_eq_ok_iff.1 ha
  obtain ⟨path, -, ha⟩ := bind_eq_ok_iff.1 ha
  obtain rfl := Except.ok.inj ha
  have hstorable : r.Storable := record_preserves nofun AssertionDraft.Storable.add v r hv hr
  exact getD_of_forall hstorable .null

/-- The default so far is in normal form and not null. -/
def ExtractionDraft.Storable (r : ExtractionDraft) : Prop :=
  ∀ x ∈ r.defaultValue, ∀ v ∈ x, v.Normal ∧ v ≠ .null

theorem ExtractionDraft.Storable.add {r r' : ExtractionDraft} {field : String} {v : Node}
    (hv : IsDocument v) (hr : r.Storable) (h : r.add d field v = .ok r') : r'.Storable := by
  unfold ExtractionDraft.add at h
  split at h
  · obtain ⟨-, source, -, rfl⟩ := fill_bind_eq_ok_iff.1 h
    exact hr
  · obtain ⟨-, source, -, rfl⟩ := fill_bind_eq_ok_iff.1 h
    exact hr
  · obtain ⟨-, target, -, rfl⟩ := fill_bind_eq_ok_iff.1 h
    exact hr
  · obtain ⟨-, target, -, rfl⟩ := fill_bind_eq_ok_iff.1 h
    exact hr
  · obtain ⟨-, default, hdefault, rfl⟩ := fill_bind_eq_ok_iff.1 h
    exact gives_optional_anyValue.filled hv hdefault
  · obtain rfl := Except.ok.inj h
    exact hr

theorem gives_extraction : Gives (extraction d) ExtractionRule.Storable := by
  intro v a hv ha
  obtain ⟨r, hr, ha⟩ := bind_eq_ok_iff.1 ha
  obtain ⟨source, -, ha⟩ := bind_eq_ok_iff.1 ha
  obtain ⟨target, -, ha⟩ := bind_eq_ok_iff.1 ha
  obtain rfl := Except.ok.inj ha
  have hstorable : r.Storable := record_preserves nofun ExtractionDraft.Storable.add v r hv hr
  exact forall_mem_join hstorable

/-! ## Verifications -/

/-- What was read so far can be held. -/
structure VerificationDraft.Storable (r : VerificationDraft) : Prop where
  statusCode : ∀ x ∈ r.statusCode, ∀ n ∈ x, n ≤ word16.greatest
  assertions : ∀ l ∈ r.assertions, ∀ a ∈ l, a.Storable
  extractions : ∀ l ∈ r.extractions, ∀ e ∈ l, e.Storable

theorem VerificationDraft.Storable.add {r r' : VerificationDraft} {field : String} {v : Node}
    (hv : IsDocument v) (hr : r.Storable) (h : r.add d field v = .ok r') : r'.Storable := by
  unfold VerificationDraft.add at h
  split at h
  · obtain ⟨-, status, hstatus, rfl⟩ := fill_bind_eq_ok_iff.1 h
    exact { hr with statusCode := (gives_natural word16).optional.filled hv hstatus }
  · obtain ⟨-, status, hstatus, rfl⟩ := fill_bind_eq_ok_iff.1 h
    exact { hr with statusCode := (gives_natural word16).optional.filled hv hstatus }
  · obtain ⟨-, headers, -, rfl⟩ := fill_bind_eq_ok_iff.1 h
    exact { hr with }
  · obtain ⟨-, assertions, hassertions, rfl⟩ := fill_bind_eq_ok_iff.1 h
    exact { hr with assertions := gives_assertion.list.filled hv hassertions }
  · obtain ⟨-, extractions, hextractions, rfl⟩ := fill_bind_eq_ok_iff.1 h
    exact { hr with extractions := gives_extraction.list.filled hv hextractions }
  · obtain rfl := Except.ok.inj h
    exact hr

theorem gives_verification : Gives (verification d) Verification.Storable := by
  intro v a hv ha
  obtain ⟨r, hr, ha⟩ := bind_eq_ok_iff.1 ha
  obtain rfl := Except.ok.inj ha
  have hempty : VerificationDraft.Storable ⟨none, none, none, none⟩ := ⟨nofun, nofun, nofun⟩
  have hstorable : r.Storable := record_preserves hempty VerificationDraft.Storable.add v r hv hr
  exact {
    statusCode := forall_mem_join hstorable.statusCode
    assertions := forall_mem_getD_nil hstorable.assertions
    extractions := forall_mem_getD_nil hstorable.extractions }

/-! ## Requests -/

/-- The times so far fit their word. -/
structure RequestDraft.Storable (r : RequestDraft) : Prop where
  timeout : ∀ x ∈ r.timeout, ∀ n ∈ x, n ≤ word64.greatest
  connectionTimeout : ∀ x ∈ r.connectionTimeout, ∀ n ∈ x, n ≤ word64.greatest

theorem RequestDraft.Storable.add {r r' : RequestDraft} {field : String} {v : Node}
    (hv : IsDocument v) (hr : r.Storable) (h : r.add d field v = .ok r') : r'.Storable := by
  unfold RequestDraft.add at h
  split at h
  · obtain ⟨-, method, -, rfl⟩ := fill_bind_eq_ok_iff.1 h
    exact { hr with }
  · obtain ⟨-, endpoint, -, rfl⟩ := fill_bind_eq_ok_iff.1 h
    exact { hr with }
  · obtain ⟨-, endpoint, -, rfl⟩ := fill_bind_eq_ok_iff.1 h
    exact { hr with }
  · obtain ⟨-, headers, -, rfl⟩ := fill_bind_eq_ok_iff.1 h
    exact { hr with }
  · obtain ⟨-, payload, -, rfl⟩ := fill_bind_eq_ok_iff.1 h
    exact { hr with }
  · obtain ⟨-, user, -, rfl⟩ := fill_bind_eq_ok_iff.1 h
    exact { hr with }
  · obtain ⟨-, time, htime, rfl⟩ := fill_bind_eq_ok_iff.1 h
    exact { hr with timeout := gives_milliseconds.filled hv htime }
  · obtain ⟨-, time, htime, rfl⟩ := fill_bind_eq_ok_iff.1 h
    exact { hr with connectionTimeout := gives_milliseconds.filled hv htime }
  · obtain ⟨-, vars, -, rfl⟩ := fill_bind_eq_ok_iff.1 h
    exact { hr with }
  · obtain rfl := Except.ok.inj h
    exact hr

theorem gives_request : Gives (request d) RequestSpec.Storable := by
  intro v a hv ha
  obtain ⟨r, hr, ha⟩ := bind_eq_ok_iff.1 ha
  obtain ⟨endpoint, -, ha⟩ := bind_eq_ok_iff.1 ha
  obtain rfl := Except.ok.inj ha
  have hempty : RequestDraft.empty.Storable := ⟨nofun, nofun⟩
  have hstorable : r.Storable := record_preserves hempty RequestDraft.Storable.add v r hv hr
  exact {
    timeout := forall_mem_join hstorable.timeout
    connectionTimeout := forall_mem_join hstorable.connectionTimeout }

/-! ## Steps -/

/-- What was read so far can be held. -/
structure StepDraft.Storable (r : StepDraft) : Prop where
  request : ∀ q ∈ r.request, q.Storable
  verification : ∀ x ∈ r.verification, ∀ v ∈ x, v.Storable
  retries : ∀ n ∈ r.retries, n ≤ word32.greatest
  retryInterval : ∀ n ∈ r.retryInterval, n ≤ word64.greatest

theorem StepDraft.Storable.add {r r' : StepDraft} {field : String} {v : Node}
    (hv : IsDocument v) (hr : r.Storable) (h : r.add d field v = .ok r') : r'.Storable := by
  unfold StepDraft.add at h
  split at h
  · obtain ⟨-, name, -, rfl⟩ := fill_bind_eq_ok_iff.1 h
    exact { hr with }
  · obtain ⟨-, condition, -, rfl⟩ := fill_bind_eq_ok_iff.1 h
    exact { hr with }
  · obtain ⟨-, request, hrequest, rfl⟩ := fill_bind_eq_ok_iff.1 h
    exact { hr with request := gives_request.filled hv hrequest }
  · obtain ⟨-, verification, hverification, rfl⟩ := fill_bind_eq_ok_iff.1 h
    exact { hr with verification := gives_verification.optional.filled hv hverification }
  · obtain ⟨-, retries, hretries, rfl⟩ := fill_bind_eq_ok_iff.1 h
    exact { hr with retries := (gives_natural word32).filled hv hretries }
  · obtain ⟨-, interval, hinterval, rfl⟩ := fill_bind_eq_ok_iff.1 h
    exact { hr with retryInterval := (gives_natural word64).filled hv hinterval }
  · obtain ⟨-, service, -, rfl⟩ := fill_bind_eq_ok_iff.1 h
    exact { hr with }
  · obtain rfl := Except.ok.inj h
    exact hr

/-- **A step that was read from a document** can be held by one: `step` gives what is `Storable`. -/
theorem gives_step : Gives (step d) Step.Storable := by
  intro v a hv ha
  obtain ⟨r, hr, ha⟩ := bind_eq_ok_iff.1 ha
  obtain ⟨name, -, ha⟩ := bind_eq_ok_iff.1 ha
  obtain ⟨request, hrequest, ha⟩ := bind_eq_ok_iff.1 ha
  obtain rfl := Except.ok.inj ha
  have hempty : StepDraft.empty.Storable := ⟨nofun, nofun, nofun, nofun⟩
  have hstorable : r.Storable := record_preserves hempty StepDraft.Storable.add v r hv hr
  exact {
    request := hstorable.request request (required_eq_ok_iff.1 hrequest)
    verification := forall_mem_join hstorable.verification
    retries := getD_of_forall hstorable.retries (Nat.zero_le _)
    retryInterval := getD_of_forall hstorable.retryInterval (Nat.zero_le _) }

/-! ## Cases -/

/-- What stands under a key is a document again. -/
theorem IsDocument.unwrapped {v : Node} (h : IsDocument v) (key : String) :
    IsDocument (Decoding.unwrapped key v) := by
  unfold Decoding.unwrapped
  split
  · split
    · exact h.entry _ List.mem_cons_self
    · exact h
  · exact h

theorem gives_steps : Gives (steps d) fun l => ∀ s ∈ l, s.Storable := by
  intro v l hv hl
  unfold steps at hl
  split at hl
  · obtain rfl := Except.ok.inj hl
    simp
  · obtain ⟨entries, hentries, hl⟩ := bind_eq_ok_iff.1 hl
    obtain ⟨_, -, hl⟩ := bind_eq_ok_iff.1 hl
    have hentry : Gives (fun e => step .yaml (Decoding.unwrapped "step" e)) Step.Storable :=
      fun e s he hs => gives_step _ s (he.unwrapped "step") hs
    exact hentry.items (hv.itemsOf hentries) (mapM_eq_ok_iff.1 hl)

/-- The steps that were read so far can be held. -/
structure CaseDraft.Storable (r : CaseDraft) : Prop where
  preconditions : ∀ l ∈ r.preconditions, ∀ s ∈ l, s.Storable
  setup : ∀ l ∈ r.setup, ∀ s ∈ l, s.Storable
  execution : ∀ l ∈ r.execution, ∀ s ∈ l, s.Storable
  cleanup : ∀ l ∈ r.cleanup, ∀ s ∈ l, s.Storable

theorem CaseDraft.Storable.add {r r' : CaseDraft} {field : String} {v : Node}
    (hv : IsDocument v) (hr : r.Storable) (h : r.add d field v = .ok r') : r'.Storable := by
  unfold CaseDraft.add at h
  split at h
  · obtain ⟨-, name, -, rfl⟩ := fill_bind_eq_ok_iff.1 h
    exact { hr with }
  · obtain ⟨-, description, -, rfl⟩ := fill_bind_eq_ok_iff.1 h
    exact { hr with }
  · obtain ⟨-, l, hl, rfl⟩ := fill_bind_eq_ok_iff.1 h
    exact { hr with preconditions := gives_steps.filled hv hl }
  · obtain ⟨-, l, hl, rfl⟩ := fill_bind_eq_ok_iff.1 h
    exact { hr with setup := gives_steps.filled hv hl }
  · obtain ⟨-, l, hl, rfl⟩ := fill_bind_eq_ok_iff.1 h
    exact { hr with execution := gives_steps.filled hv hl }
  · obtain ⟨-, l, hl, rfl⟩ := fill_bind_eq_ok_iff.1 h
    exact { hr with cleanup := gives_steps.filled hv hl }
  · obtain rfl := Except.ok.inj h
    exact hr

/-- **A case that was read from a document** can be held by one: `testCase` gives what is
`Storable`. -/
theorem gives_testCase : Gives (testCase d) TestCase.Storable := by
  intro v c hv hc
  obtain ⟨r, hr, hc⟩ := bind_eq_ok_iff.1 hc
  obtain ⟨name, -, hc⟩ := bind_eq_ok_iff.1 hc
  obtain ⟨execution, hexecution, hc⟩ := bind_eq_ok_iff.1 hc
  obtain rfl := Except.ok.inj hc
  have hempty : CaseDraft.Storable ⟨none, none, none, none, none, none⟩ :=
    ⟨nofun, nofun, nofun, nofun⟩
  have hstorable : r.Storable := record_preserves hempty CaseDraft.Storable.add v r hv hr
  intro p
  cases p with
  | preconditions => exact forall_mem_getD_nil hstorable.preconditions
  | setup => exact forall_mem_getD_nil hstorable.setup
  | execution => exact hstorable.execution execution (required_eq_ok_iff.1 hexecution)
  | cleanup => exact forall_mem_getD_nil hstorable.cleanup

end Decoding

end RestCase
