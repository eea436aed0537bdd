/-
# RestCase.Proofs.Run.Provenance — where the variables of a run come from

A context holds every variable twice, as a value and with an origin, and the two are written by
different operations.  A run only ever writes both together (`Context.InStep`): a step either passes
and extracts from its last response, or leaves the variables as they were (`Episode.settles`), and a
rule takes a value from the response that passed (`extract_induction`).  So the two stay in step,
and every origin in the result is that of a rule of a passed step (`exists_provenance`).
-/
import RestCase.Proofs.Run.History

namespace RestCase

/-! ## Writes of an extraction -/

/-- The rules of a step: those of its `Verification`, if it has one. -/
def Step.extractions (s : Step) : List ExtractionRule :=
  match s.verification with
  | none => []
  | some v => v.extractions

/-- One rule writes its target with its origin, or nothing. -/
theorem Extracted.apply_cases [Pattern.Engine] {step : String} {document : Option Json}
    {x y : Extracted} {rule : ExtractionRule} (h : Extracted.apply step document x rule = .ok y) :
    y.context = x.context ∨
      ∃ v, rule.yield? document = .ok (some v) ∧
        y.context = x.context.set rule.target v (some ⟨step, rule.source⟩) := by
  unfold Extracted.apply at h
  cases hy : rule.yield? document with
  | error b =>
    rw [hy] at h
    cases h
  | ok found =>
    rw [hy] at h
    cases found with
    | none =>
      obtain rfl := Except.ok.inj h
      exact Or.inl rfl
    | some v =>
      obtain rfl := Except.ok.inj h
      exact Or.inr ⟨v, rfl, rfl⟩

/-- **Induction over an extraction**: what the writes of the rules keep is kept by `extract`. -/
theorem extract_induction [Pattern.Engine] {ctx : Context} {step body : String}
    {rules : List ExtractionRule}
    {x : Extracted} {motive : Context → Prop} (h : extract ctx step rules body = .ok x)
    (start : motive ctx)
    (write : ∀ c, ∀ rule ∈ rules, ∀ v, rule.yield? (Json.parse body).toOption = .ok (some v) →
      motive c → motive (c.set rule.target v (some ⟨step, rule.source⟩))) :
    motive x.context := by
  unfold extract at h
  -- the induction is on the rules that are left; the context that they find is arbitrary
  suffices hfold : ∀ (left : List ExtractionRule) (y : Extracted), left ⊆ rules →
      motive y.context →
      left.foldlM (Extracted.apply step (Json.parse body).toOption) y = .ok x →
      motive x.context from hfold rules ⟨ctx, 0⟩ (List.Subset.refl rules) start h
  intro left
  induction left with
  | nil =>
    intro y _ hy hx
    obtain rfl := Except.ok.inj hx
    exact hy
  | cons rule left ih =>
    intro y hsub hy hx
    obtain ⟨hrule, hleft⟩ := List.cons_subset.1 hsub
    rw [List.foldlM_cons] at hx
    cases hz : Extracted.apply step (Json.parse body).toOption y rule with
    | error b =>
      rw [hz] at hx
      cases hx
    | ok z =>
      rw [hz] at hx
      refine ih z hleft ?_ hx
      rcases Extracted.apply_cases hz with hc | ⟨v, hv, hc⟩
      · rw [hc]
        exact hy
      · rw [hc]
        exact write y.context rule hrule v hv hy

/-- A step without a verification has no rules, and extracts with none. -/
theorem extractAll_eq [Pattern.Engine] (s : Step) (ctx : Context) (r : Response) :
    extractAll s ctx r = (extract ctx s.name s.extractions r.body).map (·.context) := by
  unfold extractAll Step.extractions
  cases s.verification with
  | none => rfl
  | some v => rfl

/-- The same for what a step takes from a response. -/
theorem extractAll_induction [Pattern.Engine] {s : Step} {ctx ctx' : Context} {r : Response}
    {motive : Context → Prop} (h : extractAll s ctx r = .ok ctx') (start : motive ctx)
    (write : ∀ c, ∀ rule ∈ s.extractions, ∀ v,
      rule.yield? (Json.parse r.body).toOption = .ok (some v) →
      motive c → motive (c.set rule.target v (some ⟨s.name, rule.source⟩))) : motive ctx' := by
  rw [extractAll_eq] at h
  cases hx : extract ctx s.name s.extractions r.body with
  | error b =>
    rw [hx] at h
    cases h
  | ok x =>
    rw [hx] at h
    obtain rfl := Except.ok.inj h
    exact extract_induction hx start write

/-! ## What a step does to the variables -/

/-- Attempts that end in a passed one extract from its response, the last answer of all; any others
leave the variables alone. -/
theorem Trial.settles [Pattern.Engine] {s : Step} {request : Request} {ctx : Context} {left n : Nat}
    {failures : List String} {last : Option Response} {l : List Event} {a : Attempted}
    (h : Trial s request ctx left n failures last l (some a)) :
    (a.outcome.status ≠ .passed ∧ a.context = ctx) ∨
      (a.outcome.status = .passed ∧ ∃ l' r, l = l' ++ [.exchange request (.ok r)] ∧
        s.Passes ctx r a.context) := by
  generalize ho : some a = o at h
  induction h with
  | spent =>
    obtain rfl := Option.some.inj ho
    exact Or.inl ⟨StepStatus.noConfusion, rfl⟩
  | stalled => cases ho
  | passed hp =>
    obtain rfl := Option.some.inj ho
    exact Or.inr ⟨rfl, _, _, rfl, hp⟩
  | lost =>
    obtain rfl := Option.some.inj ho
    exact Or.inl ⟨StepStatus.noConfusion, rfl⟩
  | refused _ _ ih | unanswered _ _ ih =>
    -- the next attempt begins with the same variables
    rcases ih ho with hkept | ⟨hpassed, l', r, rfl, hp⟩
    · exact Or.inl hkept
    · exact Or.inr ⟨hpassed, _, r, (List.append_assoc _ _ _).symm, hp⟩

namespace Episode

variable [Pattern.Engine] [Url.Names] {env : Environment}

/-- **A step passes and extracts from its last response, or leaves the variables as they were**,
by `Trial.settles`. -/
theorem settles (e : Episode env) :
    (e.record.status ≠ .passed ∧ e.after.context = e.before.context) ∨
      (e.record.status = .passed ∧ ∃ l request r, e.events = l ++ [.exchange request (.ok r)] ∧
        e.step.Passes e.before.context r e.after.context) := by
  obtain ⟨phase, s, p, l, a, h⟩ := e
  show (a.outcome.status ≠ .passed ∧ a.context = p.context) ∨ (a.outcome.status = .passed ∧ _)
  cases h with
  | skipped => exact Or.inl ⟨StepStatus.noConfusion, rfl⟩
  | unprepared => exact Or.inl ⟨StepStatus.noConfusion, rfl⟩
  | @tried request _ _ _ _ ht =>
    rcases ht.settles with hkept | ⟨hpassed, l', r, rfl, hp⟩
    · exact Or.inl hkept
    · exact Or.inr ⟨hpassed, l', request, r, rfl, hp⟩

/-- The episode is where a tracked variable can come from: the step passed, and one of its rules,
with this path and this target, yields the value from the last response
(`ExtractionRule.yield?`). -/
structure Writes (e : Episode env) (name : String) (t : Tracked) : Prop where
  passed : e.record.status = .passed
  step_eq : e.record.name = t.origin.step
  rule : ∃ rule ∈ e.step.extractions, rule.source = t.origin.path ∧ rule.target = name ∧
    ∃ l request r, e.events = l ++ [.exchange request (.ok r)] ∧
      rule.yield? (Json.parse r.body).toOption = .ok (some t.value)

/-- What is tracked after a step was tracked before, or the step `Writes` it. -/
theorem tracked_after {e : Episode env} {name : String} {t : Tracked}
    (h : e.after.context.tracked? name = some t) :
    e.before.context.tracked? name = some t ∨ e.Writes name t := by
  rcases e.settles with ⟨-, hkept⟩ | ⟨hpassed, l, request, r, hl, -, hx⟩
  · rw [hkept] at h
    exact Or.inl h
  · -- the last rule with this target is the one whose origin is kept
    revert h
    refine extractAll_induction (motive := fun c => c.tracked? name = some t → _) hx Or.inl ?_
    intro c rule hrule v hv ih h
    rw [Context.tracked?_set] at h
    split at h
    · next hname =>
      obtain rfl := Option.some.inj h
      exact Or.inr ⟨hpassed, rfl, rule, hrule, rfl, hname.symm, l, request, r, hl, hv⟩
    · exact ih h

end Episode

/-! ## Values and origins in step -/

/-- Values and origins are in step: `values` and `tracking` have the same names, and the same
value for each. -/
def Context.InStep (ctx : Context) : Prop :=
  ∀ name, ctx.get? name = (ctx.tracked? name).map (·.value)

namespace Context.InStep

theorem empty : Context.empty.InStep := fun _ => rfl

/-- A write with an origin keeps the two in step; one without would not. -/
theorem set {ctx : Context} (h : ctx.InStep) (name : String) (value : Json) (o : Origin) :
    (ctx.set name value (some o)).InStep := by
  intro k
  rw [Context.get?_set, Context.tracked?_set]
  split
  · rfl
  · exact h k

theorem after [Pattern.Engine] [Url.Names] {env : Environment} {e : Episode env}
    (h : e.before.context.InStep) :
    e.after.context.InStep := by
  rcases e.settles with ⟨-, hkept⟩ | ⟨-, l, request, r, -, -, hx⟩
  · rw [hkept]
    exact h
  · exact extractAll_induction hx h fun c rule _ v _ hc => hc.set rule.target v _

end Context.InStep

/-! ## Along a run -/

namespace Advances

variable [Pattern.Engine] [Url.Names] {env : Environment} {a b : Agenda} {p q : Progress}
    {es : List (Episode env)}

theorem inStep (h : Advances env a p es b q) (hp : p.context.InStep) : q.context.InStep := by
  induction h with
  | refl a p => exact hp
  | step _ ih => exact ih (Context.InStep.after hp)

/-- **What is tracked in the end** was tracked at the beginning, or one of the episodes `Writes`
it. -/
theorem tracked (h : Advances env a p es b q) {name : String} {t : Tracked}
    (ht : q.context.tracked? name = some t) :
    p.context.tracked? name = some t ∨ ∃ e ∈ es, e.Writes name t := by
  induction h with
  | refl a p => exact Or.inl ht
  | @step e r b es q _ ih =>
    rcases ih ht with hbefore | ⟨f, hf, hw⟩
    · rcases Episode.tracked_after hbefore with hbefore | hw
      · exact Or.inl hbefore
      · exact Or.inr ⟨e, List.mem_cons_self, hw⟩
    · exact Or.inr ⟨f, List.mem_cons_of_mem e hf, hw⟩

end Advances

theorem TestCase.mem_agenda_iff {c : TestCase} {phase : Phase} {s : Step} :
    (phase, s) ∈ c.agenda ↔ s ∈ c.steps phase := by
  cases phase <;> simp [TestCase.agenda, TestCase.entriesOf, Phase.all, Phase.entries]

/-- **Every variable in a result was written by a rule of a passed step.**  The values and the
origins of a result have the same names and agree on the value of each (`Context.InStep`); the
origin of a variable names an executed step that passed and the path of one of its rules, which
has the variable as its target and yields its value (`Writes`).  Only a step that passes changes
the variables, and it changes them by what its rules take from the last response (`extract`),
whatever the attempts before it got. -/
theorem exists_provenance [Pattern.Engine] [Url.Names] {env : Environment} {client : Client}
    {c : TestCase} {j j' : Journal}
    {r : CaseResult} (h : (runCase env c).play client j = (some r, j')) :
    ∃ history : History env client c j r j',
      (∀ name, r.context.get? name = (r.context.tracked? name).map (·.value)) ∧
      (∀ name t, r.context.tracked? name = some t →
        ∃ e ∈ history.episodes,
          e.record ∈ r.executed ∧ e.step ∈ c.steps e.phase ∧ e.Writes name t) ∧
      ∀ e ∈ history.episodes,
        (e.record.status ≠ .passed ∧ e.after.context = e.before.context) ∨
          (e.record.status = .passed ∧ ∃ l request response,
            e.events = l ++ [.exchange request (.ok response)] ∧
              e.step.Passes e.before.context response e.after.context) := by
  obtain ⟨history⟩ := play_runCase_iff.1 h
  refine ⟨history, ?_, ?_, fun e _ => e.settles⟩
  · rw [history.context_eq]
    exact history.advances.inStep Context.InStep.empty
  · intro name t ht
    rw [history.context_eq] at ht
    rcases history.advances.tracked ht with hstart | ⟨e, he, hw⟩
    · cases hstart
    · refine ⟨e, he, ?_, TestCase.mem_agenda_iff.1 (history.advances.mem_agenda he), hw⟩
      rw [history.executed_eq]
      exact List.mem_map_of_mem he

namespace TokenOfRetry

/-- A step that takes a token from a response with a status. -/
def step (name : String) (status : Nat) : Step :=
  { Step.plain name (.plain .get "x://h") with
    verification := some ⟨some status, .empty, [], [⟨"$[0]", "token", none⟩]⟩
    retries := 1 }

/-- A case whose first step passes in its second attempt and whose second step fails. -/
def case : TestCase := ⟨"token", none, [], [], [step "login" 200, step "logout" 404], []⟩

/-- A client that answers the first request with another status and another token. -/
def client : Client := fun sent =>
  if sent.length = 1 then .ok ⟨500, [], "[1]"⟩ else .ok ⟨200, [], "[2]"⟩

end TokenOfRetry

/-- The token of a run in which one attempt and one step fail comes from the attempt that passed. -/
theorem exists_provenance_tokenOfRetry :
    (((runCase ⟨.standard, .empty⟩ TokenOfRetry.case).play TokenOfRetry.client .empty).1.bind
        (·.context.tracked? "token")).map (fun t => (t.value.stringForm, t.origin)) =
      some ("2", ⟨"login", "$[0]"⟩) ∧
    ∃ (r : CaseResult) (j' : Journal)
      (history : History ⟨.standard, .empty⟩ TokenOfRetry.client TokenOfRetry.case .empty r j'),
      (∀ name, r.context.get? name = (r.context.tracked? name).map (·.value)) ∧
      (∀ name t, r.context.tracked? name = some t →
        ∃ e ∈ history.episodes,
          e.record ∈ r.executed ∧ e.step ∈ TokenOfRetry.case.steps e.phase ∧ e.Writes name t) ∧
      ∀ e ∈ history.episodes,
        (e.record.status ≠ .passed ∧ e.after.context = e.before.context) ∨
          (e.record.status = .passed ∧ ∃ l request response,
            e.events = l ++ [.exchange request (.ok response)] ∧
              e.step.Passes e.before.context response e.after.context) := by
  refine ⟨by decide +kernel, ?_⟩
  have hsome : ((runCase ⟨.standard, .empty⟩ TokenOfRetry.case).play
      TokenOfRetry.client .empty).1.isSome = true := by decide +kernel
  obtain ⟨r, hr⟩ := Option.isSome_iff_exists.1 hsome
  exact ⟨r, _, exists_provenance (Prod.ext hr rfl)⟩

end RestCase
