/-
# RestCase.Proofs.Run.Returning — runs that return

A failed check is a message and a rule that finds nothing writes nothing, but a path that cannot be
followed takes the check, the extraction and the whole run with it.  Here the breakdowns of single
paths are traced upwards: to an assertion (`check_breaks_iff`), to a list of rules
(`extract_breaks_iff`), to the response of a step (`stalls_iff`), and from there to the run, which
has no other way to end without a result (`returns_iff`).

The run of a case whose paths are all sound returns with every client (`exists_play_of_sound`).
-/
import RestCase.Proofs.Path.Breakdown
import RestCase.Proofs.Run.History

namespace RestCase

/-! ## Assertions and rules -/

/-- The text is a path (`Path.parse`), and one that cannot be followed in the document
(`Path.BreaksOn`). -/
def PathTextBreaksOn [Pattern.Engine] (text : String) (document : Json) : Prop :=
  ∃ path, Path.parse text = .ok path ∧ path.BreaksOn document

/-- Checking the assertion comes to a path that cannot be followed; the path of an assertion with
an unknown comparison is not looked at. -/
def PathAssertion.BreaksOn [Pattern.Engine] (a : PathAssertion) (document : Json) : Prop :=
  (Comparison.ofName? a.comparison).isSome ∧ PathTextBreaksOn a.path document

/-- The path of the rule cannot be followed. -/
def ExtractionRule.BreaksOn [Pattern.Engine] (rule : ExtractionRule) (document : Json) : Prop :=
  PathTextBreaksOn rule.source document

theorem check_breaks_iff [Pattern.Engine] {document : Json} {a : PathAssertion}
    {ctx : Option Context} :
    Breaks (a.check document ctx) ↔ a.BreaksOn document := by
  unfold PathAssertion.check PathAssertion.BreaksOn PathTextBreaksOn
  cases Comparison.ofName? a.comparison with
  | none => simp
  | some comparison =>
    cases Path.parse a.path with
    | error fault => simp
    | ok path => simp [Path.evaluate_breaks_iff]

theorem yield_breaks_iff [Pattern.Engine] {rule : ExtractionRule} {document : Json} :
    Breaks (rule.yield? (some document)) ↔ rule.BreaksOn document := by
  unfold ExtractionRule.yield? ExtractionRule.find? ExtractionRule.BreaksOn PathTextBreaksOn
  rw [breaks_map]
  cases Path.parse rule.source with
  | error fault => simp
  | ok path => simp [Path.evaluate_breaks_iff]

/-- Rules break down (`extract`) when one of them does: what the rules before it have written does
not count. -/
theorem extract_breaks_iff [Pattern.Engine] {ctx : Context} {step body : String}
    {rules : List ExtractionRule} :
    Breaks (extract ctx step rules body) ↔
      ∃ document, Json.parse body = .ok document ∧ ∃ rule ∈ rules, rule.BreaksOn document := by
  -- whether a rule breaks down depends on the document, not on what is written already
  have hfold : ∀ document : Option Json,
      Breaks (rules.foldlM (Extracted.apply step document) ⟨ctx, 0⟩) ↔
        ∃ rule ∈ rules, Breaks (rule.yield? document) := by
    intro document
    refine breaks_foldlM (P := fun rule => Breaks (rule.yield? document)) ?_ rules _
    intro state rule
    exact breaks_map
  unfold extract
  rw [hfold]
  cases Json.parse body with
  | error fault => simp [Except.toOption, ExtractionRule.yield?]
  | ok document => simp [Except.toOption, yield_breaks_iff]

/-! ## Responses -/

theorem Verification.check_breaks_iff [Pattern.Engine] {v : Verification} {r : Response}
    {ctx : Option Context} :
    Breaks (v.check r ctx) ↔
      ∃ document, r.json = .ok document ∧ ∃ a ∈ v.assertions, a.BreaksOn document := by
  unfold Verification.check Verification.assertionFailures
  rw [breaks_map]
  cases r.json with
  | error fault => simp
  | ok document => simp [breaks_mapM, RestCase.check_breaks_iff]

/-- Judging a response to the step comes to a path that cannot be followed: the path of an
assertion (`PathAssertion.BreaksOn`), or the path of a rule (`ExtractionRule.BreaksOn`) after all
checks have passed. -/
def Step.BreaksOn [Pattern.Engine] (s : Step) (ctx : Context) (r : Response) : Prop :=
  ∃ v document, s.verification = some v ∧ r.json = .ok document ∧
    ((∃ a ∈ v.assertions, a.BreaksOn document) ∨
      checkFailures s ctx r = .ok [] ∧ ∃ rule ∈ v.extractions, rule.BreaksOn document)

/-- **A response cannot be judged** (`Stalls`) exactly when a path breaks down on it
(`Step.BreaksOn`). -/
theorem stalls_iff [Pattern.Engine] {s : Step} {ctx : Context} {r : Response} :
    s.Stalls ctx r ↔ s.BreaksOn ctx r := by
  have hchecks : (∃ b, checkFailures s ctx r = .error b) ↔
      ∃ v document, s.verification = some v ∧ r.json = .ok document ∧
        ∃ a ∈ v.assertions, a.BreaksOn document := by
    refine Iff.trans (b := Breaks (checkFailures s ctx r)) Iff.rfl ?_
    unfold checkFailures
    cases s.verification with
    | none => simp
    | some v => simp [Verification.check_breaks_iff]
  have hrules : (∃ b, extractAll s ctx r = .error b) ↔
      ∃ v document, s.verification = some v ∧ r.json = .ok document ∧
        ∃ rule ∈ v.extractions, rule.BreaksOn document := by
    refine Iff.trans (b := Breaks (extractAll s ctx r)) Iff.rfl ?_
    unfold extractAll
    cases s.verification with
    | none => simp
    | some v => simp [extract_breaks_iff, Response.json]
  rw [Step.Stalls, Step.BreaksOn, hchecks, hrules]
  constructor
  · rintro (⟨v, document, hv, hd, h⟩ | ⟨hc, v, document, hv, hd, h⟩)
    · exact ⟨v, document, hv, hd, Or.inl h⟩
    · exact ⟨v, document, hv, hd, Or.inr ⟨hc, h⟩⟩
  · rintro ⟨v, document, hv, hd, h | ⟨hc, h⟩⟩
    · exact Or.inl ⟨v, document, hv, hd, h⟩
    · exact Or.inr ⟨hc, v, document, hv, hd, h⟩

/-! ## Runs -/

/-- **Checks, extractions and runs return exactly when every path that they come to can be
followed** (`BreaksOn`).  An assertion comes to its path if its comparison is known; an extraction
comes to the paths of all its rules if the body is a document; a run comes to the paths of a step
with every response to it that it `Judges`, and to the paths of its rules if the response passes. -/
theorem returns_iff [Pattern.Engine] [Url.Names] (document : Json) (a : PathAssertion)
    (seen : Option Context) (ctx : Context)
    (step body : String) (rules : List ExtractionRule) (env : Environment) (client : Client)
    (c : TestCase) (j : Journal) :
    ((∃ found, a.check document seen = .ok found) ↔ ¬ a.BreaksOn document) ∧
    ((∃ x, extract ctx step rules body = .ok x) ↔
      ∀ d, Json.parse body = .ok d → ∀ rule ∈ rules, ¬ rule.BreaksOn d) ∧
    ((∃ r, ((runCase env c).play client j).1 = some r) ↔
      ∀ s v r, Judges env client c j s v r → ¬ s.BreaksOn v r) := by
  refine ⟨?_, ?_, ?_⟩
  · rw [← not_breaks_iff, check_breaks_iff]
  · rw [← not_breaks_iff, extract_breaks_iff]
    constructor
    · intro h d hd rule hr hb
      exact h ⟨d, hd, rule, hr, hb⟩
    · rintro h ⟨d, hd, rule, hr, hb⟩
      exact h d hd rule hr hb
  · rw [← Option.isSome_iff_exists, ← Option.ne_none_iff_isSome, Ne, play_runCase_none_iff]
    constructor
    · intro h s v r hj hb
      exact h ⟨s, v, r, hj, stalls_iff.2 hb⟩
    · rintro h ⟨s, v, r, hj, hs⟩
      exact h s v r hj (stalls_iff.1 hs)

/-! ## A run that does not return -/

namespace ZeroStride

/-- A step that takes a slice with a stride of zero from the response. -/
def step : Step :=
  { Step.plain "slice" (.plain .get "x://h") with
    verification := some ⟨some 200, .empty, [], [⟨"$[::0]", "items", none⟩]⟩ }

/-- A case with that step alone. -/
def case : TestCase := ⟨"every none", none, [], [], [step], []⟩

/-- A client that answers with an array. -/
def client : Client := fun _ => .ok ⟨200, [], "[1]"⟩

end ZeroStride

/-- **Not every run returns**: a slice with a stride of zero (`Path.stalls`) ends this one without
a result. -/
theorem exists_run_without_result :
    ¬ ∀ (env : Environment) (client : Client) (c : TestCase) (j : Journal),
      ∃ r, ((runCase env c).play client j).1 = some r := by
  intro h
  obtain ⟨r, hr⟩ := h ⟨.standard, .empty⟩ ZeroStride.client ZeroStride.case .empty
  have hnone : (((runCase ⟨.standard, .empty⟩ ZeroStride.case).play
      ZeroStride.client .empty).1).isNone = true := by decide +kernel
  rw [hr] at hnone
  cases hnone

/-! ## Cases of sound paths -/

/-- The text is no path, or a sound one. -/
def isSoundPathText (text : String) : Bool :=
  match Path.parse text with
  | .ok path => path.isSound
  | .error _ => true

theorem not_pathTextBreaksOn [Pattern.Engine] {text : String} (h : isSoundPathText text = true)
    (document : Json) :
    ¬ PathTextBreaksOn text document := by
  rintro ⟨path, hp, hb⟩
  rw [isSoundPathText, hp] at h
  exact Path.not_breaksOn_of_sound h document hb

/-- Every path of the step is sound (`isSoundPathText`). -/
def Step.isSound (s : Step) : Bool :=
  match s.verification with
  | some v =>
    (v.assertions.all fun a => isSoundPathText a.path) &&
      v.extractions.all fun rule => isSoundPathText rule.source
  | none => true

/-- Every response to a step of sound paths can be judged. -/
theorem not_breaksOn_of_isSound [Pattern.Engine] {s : Step} (h : s.isSound = true) (ctx : Context)
    (r : Response) :
    ¬ s.BreaksOn ctx r := by
  rintro ⟨v, document, hv, -, hb⟩
  rw [Step.isSound, hv] at h
  simp only [Bool.and_eq_true, List.all_eq_true] at h
  rcases hb with ⟨a, ha, -, hb⟩ | ⟨-, rule, hr, hb⟩
  · exact not_pathTextBreaksOn (h.1 a ha) document hb
  · exact not_pathTextBreaksOn (h.2 rule hr) document hb

/-- **A case of sound paths returns** whatever the client answers: each `Step.isSound`. -/
theorem exists_play_of_sound [Pattern.Engine] [Url.Names] {env : Environment} {client : Client}
    {c : TestCase} {j : Journal} (h : ∀ e ∈ c.agenda, e.2.isSound = true) :
    ∃ r j', (runCase env c).play client j = (some r, j') := by
  refine exists_play_runCase ?_
  intro s ctx r hj hs
  obtain ⟨phase, hmem⟩ := hj.exists_mem_agenda
  exact not_breaksOn_of_isSound (h _ hmem) ctx r (stalls_iff.1 hs)

end RestCase
