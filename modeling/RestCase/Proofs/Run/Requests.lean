/-
# RestCase.Proofs.Run.Requests — what is sent for a step

The request of a step is given by its parts (`IsRequestOf`).  Its headers are those of the step with
the variables put in, and a default for each of two names that the step gives in no letter case
(`find?_headersOf`); a default never meets a header of the step, and the two defaults never meet
each other.  Of two names that differ in letter case only, the step itself gave both
(`Sends.defined_of_same`).  Its body is the payload with the variables of the context put in first
and the template variables after that (`bodyOf_eq_some_iff`): the values of the template variables
stand in the body as they are, whatever they look like.

Only an endpoint that leads to no URL keeps the request from being prepared (`prepare_eq_ok_iff`,
`prepare_by_parts`), and which endpoints these are is a matter of `Settings.resolve` and the names
of hosts.
-/
import RestCase.Proofs.Table.Listing
import RestCase.Proofs.Template.Splitting
import RestCase.Run.Preparation

namespace RestCase

theorem Method.allowsBody_iff {m : Method} :
    m.allowsBody = true ↔ m = .post ∨ m = .put ∨ m = .patch := by
  cases m <;> decide

/-! ## Header names -/

theorem Text.sameIgnoringCase_refl (s : String) : sameIgnoringCase s s = true :=
  (Chars.sameIgnoringCase_iff _ _).2 rfl

theorem Text.sameIgnoringCase_symm {s t : String} (h : sameIgnoringCase s t = true) :
    sameIgnoringCase t s = true :=
  (Chars.sameIgnoringCase_iff _ _).2 ((Chars.sameIgnoringCase_iff _ _).1 h).symm

/-- One of the headers has the name, letter case ignored: what `headerNamed?` looks for. -/
def HeaderNamed (headers : Table String) (name : String) : Prop :=
  ∃ own ∈ headers.keys, Text.sameIgnoringCase own name = true

section Defaults

variable {headers : Table String} {name value : String}

theorem headerNamed?_isSome_iff :
    (headerNamed? headers.entries name).isSome = true ↔ HeaderNamed headers name := by
  rw [headerNamed?, Option.isSome_map, List.find?_isSome]
  constructor
  · rintro ⟨e, he, hsame⟩
    exact ⟨e.1, List.mem_map.2 ⟨e, he, rfl⟩, hsame⟩
  · rintro ⟨own, hown, hsame⟩
    obtain ⟨e, he, rfl⟩ := List.mem_map.1 hown
    exact ⟨e, he, hsame⟩

/-- A default is put in exactly where the name is given in no letter case. -/
theorem find?_withDefaultHeader {k v : String} :
    (withDefaultHeader name value headers).find? k = some v ↔
      headers.find? k = some v ∨ ¬ HeaderNamed headers name ∧ k = name ∧ v = value := by
  unfold withDefaultHeader
  split
  · next h =>
    have hnamed := headerNamed?_isSome_iff.1 h
    simp [hnamed]
  · next h =>
    have hmissing : ¬ HeaderNamed headers name := mt headerNamed?_isSome_iff.2 h
    have hnew : headers.find? name ≠ some v := fun hv =>
      hmissing ⟨name, Table.mem_keys_iff.2 ⟨v, hv⟩, Text.sameIgnoringCase_refl name⟩
    rw [Table.find?_insert]
    split
    · next hk =>
      subst hk
      simp [hmissing, hnew, eq_comm]
    · next hk => simp [hk]

/-- A default leaves other names as they are. -/
theorem headerNamed_withDefaultHeader {other : String}
    (h : Text.sameIgnoringCase name other = false) :
    HeaderNamed (withDefaultHeader name value headers) other ↔ HeaderNamed headers other := by
  unfold HeaderNamed
  simp only [Table.mem_keys_iff, find?_withDefaultHeader]
  constructor
  · rintro ⟨own, ⟨v, hown | ⟨-, rfl, -⟩⟩, hsame⟩
    · exact ⟨own, ⟨v, hown⟩, hsame⟩
    · rw [h] at hsame
      cases hsame
  · rintro ⟨own, ⟨v, hown⟩, hsame⟩
    exact ⟨own, ⟨v, .inl hown⟩, hsame⟩

/-- A change of the values keeps the names. -/
theorem headerNamed_map (f : String → String → String) :
    HeaderNamed (headers.map f) name ↔ HeaderNamed headers name := by
  unfold HeaderNamed
  simp only [Table.mem_keys_iff, Table.find?_map, Option.map_eq_some_iff]
  constructor
  · rintro ⟨own, ⟨_, v, hv, -⟩, hsame⟩
    exact ⟨own, ⟨v, hv⟩, hsame⟩
  · rintro ⟨own, ⟨v, hv⟩, hsame⟩
    exact ⟨own, ⟨_, v, hv, rfl⟩, hsame⟩

end Defaults

namespace RequestSpec

variable {settings : Settings} {users : Table User} {r : RequestSpec} {ctx : Context}
  {request : Request}

/-! ## The body -/

/-- What becomes of a payload: the variables of the context are put in, and what that gives is cut
at its template placeholders (`Template.Splits`), which the values of the template variables take
the place of as they are. -/
def FillsInto (r : RequestSpec) (ctx : Context) (payload text : String) : Prop :=
  ∃ ps, Template.IsSplit Template.payloadMarks (Template.interpolate ctx payload).toList ps ∧
    text = String.ofList (ps.flatMap
      (Template.Piece.filled Template.payloadMarks (Template.effectiveValue? r.templateVariables)))

/-- The text is the body that is sent: what the payload `FillsInto`, if the method allows one. -/
def SendsBody (r : RequestSpec) (ctx : Context) (text : String) : Prop :=
  (r.method = .post ∨ r.method = .put ∨ r.method = .patch) ∧
    ∃ payload, r.payload = some payload ∧ r.FillsInto ctx payload text

theorem fillsInto_iff {payload text : String} :
    r.FillsInto ctx payload text ↔
      Template.applyVariables r.templateVariables (Template.interpolate ctx payload) = text := by
  rw [Template.applyVariables_eq_fill, Template.fill_eq_assemble]
  constructor
  · rintro ⟨ps, hps, rfl⟩
    rw [← hps.unique _ (Template.splits_pieces _ _)]
    rfl
  · rintro rfl
    exact ⟨_, Template.isSplit_pieces _ _, rfl⟩

/-- **The body that is sent**: `bodyOf` gives what `SendsBody` says. -/
theorem bodyOf_eq_some_iff {text : String} : r.bodyOf ctx = some text ↔ r.SendsBody ctx text := by
  unfold bodyOf SendsBody
  rw [← Method.allowsBody_iff]
  simp only [fillsInto_iff]
  split
  · next h => rw [and_iff_right h, Option.map_eq_some_iff]
  · next h => exact iff_of_false (fun hnone => by cases hnone) fun hsent => h hsent.1

/-- A body is sent exactly if there is a payload and the method allows it. -/
theorem exists_sendsBody_iff :
    (∃ text, r.SendsBody ctx text) ↔
      (∃ payload, r.payload = some payload) ∧
        (r.method = .post ∨ r.method = .put ∨ r.method = .patch) := by
  constructor
  · rintro ⟨text, hmethod, payload, hpayload, -⟩
    exact ⟨⟨payload, hpayload⟩, hmethod⟩
  · rintro ⟨⟨payload, hpayload⟩, hmethod⟩
    exact ⟨_, hmethod, payload, hpayload, fillsInto_iff.2 rfl⟩

theorem isSome_bodyOf_iff : (r.bodyOf ctx).isSome = true ↔ ∃ text, r.SendsBody ctx text := by
  rw [Option.isSome_iff_exists]
  exact exists_congr fun _ => bodyOf_eq_some_iff

/-! ## The headers -/

/-- The headers that are sent: those of the step with the variables put in, and JSON for the two
names that the step gives in no letter case (`HeaderNamed`), for the second one only if there is a
body. -/
inductive Sends (r : RequestSpec) (ctx : Context) : String → String → Prop
  | given {name value : String} (h : r.headers.find? name = some value) :
      Sends r ctx name (Template.interpolate ctx value)
  | accept (h : ¬ HeaderNamed r.headers "Accept") : Sends r ctx "Accept" "application/json"
  | contentType (hbody : ∃ text, r.SendsBody ctx text)
      (h : ¬ HeaderNamed r.headers "Content-Type") :
      Sends r ctx "Content-Type" "application/json"

theorem sends_iff {name value : String} :
    r.Sends ctx name value ↔
      ((∃ written, r.headers.find? name = some written ∧
          Template.interpolate ctx written = value) ∨
        ¬ HeaderNamed r.headers "Accept" ∧ name = "Accept" ∧ value = jsonMediaType) ∨
      (∃ text, r.SendsBody ctx text) ∧ ¬ HeaderNamed r.headers "Content-Type" ∧
        name = "Content-Type" ∧ value = jsonMediaType := by
  constructor
  · intro h
    cases h with
    | given h => exact .inl (.inl ⟨_, h, rfl⟩)
    | accept h => exact .inl (.inr ⟨h, rfl, rfl⟩)
    | contentType hbody h => exact .inr ⟨hbody, h, rfl, rfl⟩
  · rintro ((⟨written, h, rfl⟩ | ⟨h, rfl, rfl⟩) | ⟨hbody, h, rfl, rfl⟩)
    · exact .given h
    · exact .accept h
    · exact .contentType hbody h

/-- **The headers that are sent**: `headersOf` holds what `Sends` says. -/
theorem find?_headersOf {name value : String} :
    (r.headersOf ctx).find? name = some value ↔ r.Sends ctx name value := by
  have hapart : Text.sameIgnoringCase "Accept" "Content-Type" = false := by decide
  have hgiven : ∀ {k v : String},
      (r.headers.map fun _ value => Template.interpolate ctx value).find? k = some v ↔
        ∃ written, r.headers.find? k = some written ∧ Template.interpolate ctx written = v := by
    intro k v
    rw [Table.find?_map, Option.map_eq_some_iff]
  unfold headersOf
  simp only
  rw [sends_iff, ← isSome_bodyOf_iff]
  split
  · next h =>
    -- the default for `Accept` has no part in what the second default looks for
    rw [find?_withDefaultHeader, headerNamed_withDefaultHeader hapart, find?_withDefaultHeader,
      headerNamed_map, headerNamed_map, hgiven, and_iff_right h]
  · next h =>
    rw [find?_withDefaultHeader, headerNamed_map, hgiven]
    exact (or_iff_left fun hsent => h hsent.1).symm

/-- **Of two names that differ in letter case only, the step gives both**: the first here, and with
the two exchanged the second. -/
theorem Sends.defined_of_same {a b v w : String} (ha : r.Sends ctx a v) (hb : r.Sends ctx b w)
    (hne : a ≠ b) (hsame : Text.sameIgnoringCase b a = true) : a ∈ r.headers.keys := by
  have hapart : Text.sameIgnoringCase "Accept" "Content-Type" = false := by decide
  cases ha with
  | given ha => exact Table.mem_keys_iff.2 ⟨_, ha⟩
  -- a default stands in for a name that is given in no case, so the other one is a default as well
  | accept hmissing =>
    cases hb with
    | given hb => exact absurd ⟨b, Table.mem_keys_iff.2 ⟨_, hb⟩, hsame⟩ hmissing
    | accept => exact absurd rfl hne
    | contentType =>
      rw [Text.sameIgnoringCase_symm hsame] at hapart
      cases hapart
  | contentType _ hmissing =>
    cases hb with
    | given hb => exact absurd ⟨b, Table.mem_keys_iff.2 ⟨_, hb⟩, hsame⟩ hmissing
    | accept =>
      rw [hsame] at hapart
      cases hapart
    | contentType => exact absurd rfl hne

/-! ## The request -/

/-- The parts of the request that is sent for a step: its headers by `Sends`, its body by
`SendsBody`. -/
structure IsRequestOf [Url.Names] (settings : Settings) (users : Table User) (r : RequestSpec)
    (ctx : Context) (request : Request) : Prop where
  method : request.method = r.method
  url : settings.resolve (Template.interpolate ctx r.endpoint) = .ok request.url
  header_iff : ∀ name value,
    request.headers.find? name = some value ↔ r.Sends ctx name value
  body_iff : ∀ text, request.body = some text ↔ r.SendsBody ctx text
  timeout : request.timeout = r.timeout.getD settings.defaultTimeout
  connectionTimeout :
    request.connectionTimeout = r.connectionTimeout.getD settings.defaultConnectionTimeout
  credentials : request.credentials = r.user.bind (credentialsOf? users)

/-- **A request is prepared exactly if it has these parts** (`IsRequestOf`). -/
theorem prepare_eq_ok_iff [Url.Names] :
    r.prepare settings users ctx = .ok request ↔ IsRequestOf settings users r ctx request := by
  unfold prepare
  constructor
  · intro h
    split at h
    · cases h
    · next url hurl =>
      obtain rfl := Except.ok.inj h
      exact ⟨rfl, hurl, fun _ _ => find?_headersOf, fun _ => bodyOf_eq_some_iff, rfl, rfl, rfl⟩
  · intro h
    obtain ⟨method, url, headers, body, timeout, connectionTimeout, credentials⟩ := request
    obtain ⟨rfl, hurl, hheaders, hbody, rfl, rfl, rfl⟩ := h
    have hheaders' : headers = r.headersOf ctx := by
      apply Table.ext_find?
      intro k
      apply Option.ext
      intro v
      rw [find?_headersOf]
      exact hheaders k v
    have hbody' : body = r.bodyOf ctx := by
      apply Option.ext
      intro text
      rw [bodyOf_eq_some_iff]
      exact hbody text
    rw [hurl, hheaders', hbody']

/-- **Which request is prepared for a step, and when none is** (`IsRequestOf`).  It has the method
of the step, the URL that its endpoint leads to (`Settings.resolve`), its headers and a default
for each of the two names that it does not give, its payload as the body if the method allows one,
and its times or else those of the settings. A body is sent exactly if there is a payload and the
method allows it, and two of the names differ in letter case only if the step gives both.  Nothing
is prepared exactly if the endpoint leads to no URL. -/
theorem prepare_by_parts [Url.Names] (settings : Settings) (users : Table User) (r : RequestSpec)
    (ctx : Context) :
    (∀ request, r.prepare settings users ctx = .ok request ↔
      IsRequestOf settings users r ctx request) ∧
    (∀ request, r.prepare settings users ctx = .ok request →
      (request.body.isSome = true ↔ (∃ payload, r.payload = some payload) ∧
        (r.method = .post ∨ r.method = .put ∨ r.method = .patch)) ∧
      ∀ a ∈ request.headers.keys, ∀ b ∈ request.headers.keys, a ≠ b →
        Text.sameIgnoringCase a b = true → a ∈ r.headers.keys ∧ b ∈ r.headers.keys) ∧
    ((∃ fault, r.prepare settings users ctx = .error fault) ↔
      ∃ fault, settings.resolve (Template.interpolate ctx r.endpoint) = .error fault) := by
  refine ⟨fun request => prepare_eq_ok_iff, fun request h => ?_, ?_⟩
  · have hparts := prepare_eq_ok_iff.1 h
    constructor
    · rw [Option.isSome_iff_exists, ← exists_sendsBody_iff]
      exact exists_congr hparts.body_iff
    · intro a ha b hb hne hsame
      obtain ⟨v, ha⟩ := Table.mem_keys_iff.1 ha
      obtain ⟨w, hb⟩ := Table.mem_keys_iff.1 hb
      have hsendsA := (hparts.header_iff a v).1 ha
      have hsendsB := (hparts.header_iff b w).1 hb
      exact ⟨hsendsA.defined_of_same hsendsB hne (Text.sameIgnoringCase_symm hsame),
        hsendsB.defined_of_same hsendsA hne.symm hsame⟩
  · unfold prepare
    cases settings.resolve (Template.interpolate ctx r.endpoint) with
    | error fault => exact iff_of_true ⟨fault, rfl⟩ ⟨fault, rfl⟩
    | ok url => exact iff_of_false (fun ⟨_, h⟩ => by cases h) fun ⟨_, h⟩ => by cases h

namespace Posting

/-- A request with a header that differs from a default in letter case, and a template variable
whose value looks like a variable of the context. -/
def spec : RequestSpec where
  method := .post
  endpoint := "x://$\x7bhost\x7d"
  headers := .ofList [("accept", "text/$\x7bkind\x7d"), ("X-Kind", "$\x7bkind\x7d")]
  payload := some "$\x7bkind\x7d: \x7b\x7bnote\x7d\x7d"
  user := none
  timeout := some 5
  connectionTimeout := none
  templateVariables := [⟨"note", some "$\x7bkind\x7d", none⟩]

def context : Context :=
  (Context.empty.set "host" (.string "h") none).set "kind" (.string "plain") none

/-- What is sent for it. -/
def sent : Request where
  method := .post
  url := "x://h"
  headers := .ofList
    [("Content-Type", "application/json"), ("X-Kind", "plain"), ("accept", "text/plain")]
  body := some "plain: $\x7bkind\x7d"
  timeout := 5
  connectionTimeout := 10000
  credentials := none

end Posting

/-- The step's own `accept` is kept, and the value of the template variable is sent as it is. -/
theorem prepare_by_parts_posting :
    Posting.spec.prepare .standard .empty Posting.context = .ok Posting.sent ∧
    IsRequestOf .standard .empty Posting.spec Posting.context Posting.sent ∧
    (Posting.sent.body.isSome = true ↔ (∃ payload, Posting.spec.payload = some payload) ∧
      (Posting.spec.method = .post ∨ Posting.spec.method = .put ∨
        Posting.spec.method = .patch)) := by
  have hprepare : Posting.spec.prepare .standard .empty Posting.context = .ok Posting.sent := by
    decide +kernel
  obtain ⟨hparts, hsent, -⟩ := prepare_by_parts .standard .empty Posting.spec Posting.context
  exact ⟨hprepare, (hparts Posting.sent).1 hprepare, (hsent Posting.sent hprepare).1⟩

end RequestSpec

end RestCase
