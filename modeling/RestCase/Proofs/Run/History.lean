/-
# RestCase.Proofs.Run.History — histories of a run

A run is told by its *episodes* (`Episode`), the steps that it carried out, each with the state
before it, what was done and what came of it.  `Advances` relates an agenda and a state to what they
have become after some episodes; an invariant of runs is an induction on it, with one case for an
episode, and `Advances.executed_eq`, `Advances.failures_eq` and `Advances.cleanupWarnings_eq` are
the first three.

A `History` leads from the whole agenda of a case to the empty one, with a client that gives every
answer.  A run that gives a result is a history, and every history is such a run
(`play_runCase_iff`); a run gives no result exactly when it comes to a response that cannot be
judged (`play_runCase_none_iff`).
-/
import RestCase.Proofs.Run.Agenda

namespace RestCase

variable [Pattern.Engine] [Url.Names]

/-! ## Episodes -/

/-- A step of a phase that was carried out: in which state (`Progress`), what was done, and what
came of it (`Attempted`). -/
structure Episode (env : Environment) where
  phase : Phase
  step : Step
  before : Progress
  events : List Event
  attempted : Attempted
  carried : Carried env step before events (some attempted)

namespace Episode

variable {env : Environment}

/-- The state after the step. -/
def after (e : Episode env) : Progress := e.before.after e.phase e.step e.attempted

/-- The entry of the step in the result. -/
def record (e : Episode env) : ExecutedStep :=
  ⟨e.phase, e.step.name, e.attempted.outcome.status, e.attempted.outcome.attempts, 0⟩

/-- The messages of the step. -/
def messages (e : Episode env) : List String :=
  e.attempted.outcome.messages e.step.name e.step.retries

/-- The step failed. -/
def Failed (e : Episode env) : Prop := e.attempted.outcome.status = .failed

instance (e : Episode env) : Decidable e.Failed :=
  inferInstanceAs (Decidable (e.attempted.outcome.status = .failed))

/-- **A step has messages exactly when it failed** (`Episode.Failed`); the record and the messages
agree. -/
theorem messages_ne_nil_iff (e : Episode env) : e.messages ≠ [] ↔ e.record.status = .failed := by
  rw [messages, Ne, Outcome.messages_eq_nil_iff, Decidable.not_not, record]

/-- The case is cut short by the step. -/
def cuts (e : Episode env) : Bool := e.phase.isCutBy e.attempted.outcome

theorem cuts_iff {e : Episode env} : e.cuts = true ↔ e.phase.abortsOnFailure = true ∧ e.Failed :=
  Phase.isCutBy_iff

@[simp] theorem after_context (e : Episode env) : e.after.context = e.attempted.context := rfl

@[simp] theorem after_executed (e : Episode env) :
    e.after.executed = e.before.executed ++ [e.record] := rfl

@[simp] theorem after_failures (e : Episode env) :
    e.after.failures =
      if e.phase = .cleanup then e.before.failures else e.before.failures ++ e.messages := rfl

@[simp] theorem after_cleanupWarnings (e : Episode env) :
    e.after.cleanupWarnings =
      if e.phase = .cleanup then e.before.cleanupWarnings ++ e.messages
      else e.before.cleanupWarnings := rfl

end Episode

/-- What is done in episodes, one after the other. -/
def eventsOf {env : Environment} (es : List (Episode env)) : List Event := es.flatMap (·.events)

theorem eventsOf_cons {env : Environment} (e : Episode env) (es : List (Episode env)) :
    eventsOf (e :: es) = e.events ++ eventsOf es := List.flatMap_cons

theorem eventsOf_append {env : Environment} (es₁ es₂ : List (Episode env)) :
    eventsOf (es₁ ++ es₂) = eventsOf es₁ ++ eventsOf es₂ := List.flatMap_append

/-! ## Advancing along an agenda -/

/-- The episodes lead from one agenda and state to another: each is the first step of the agenda
that is left, begins in the state that the one before it left, and cuts the agenda if it has to
(`shorten`). -/
inductive Advances (env : Environment) :
    Agenda → Progress → List (Episode env) → Agenda → Progress → Prop
  | refl (a : Agenda) (p : Progress) : Advances env a p [] a p
  | step {e : Episode env} {r b : Agenda} {es : List (Episode env)} {q : Progress} :
      Advances env (Agenda.shorten e.cuts r) e.after es b q →
      Advances env ((e.phase, e.step) :: r) e.before (e :: es) b q

namespace Advances

variable {env : Environment} {a b c : Agenda} {p q : Progress} {es : List (Episode env)}

theorem trans {r : Progress} {es' : List (Episode env)} (h : Advances env a p es b q)
    (h' : Advances env b q es' c r) : Advances env a p (es ++ es') c r := by
  induction h with
  | refl a p => exact h'
  | step _ ih => exact .step (ih h')

/-- Every step that is carried out was on the agenda. -/
theorem mem_agenda (h : Advances env a p es b q) {e : Episode env} (he : e ∈ es) :
    (e.phase, e.step) ∈ a := by
  induction h with
  | refl a p => cases he
  | @step e' r b es q _ ih =>
    rcases List.mem_cons.1 he with rfl | he
    · exact List.mem_cons_self
    · exact List.mem_cons_of_mem _ (Agenda.mem_of_mem_shorten (ih he))

/-- What is left of the agenda was on it. -/
theorem mem_of_mem_rest (h : Advances env a p es b q) {x : Phase × Step} (hx : x ∈ b) : x ∈ a := by
  induction h with
  | refl a p => exact hx
  | step _ ih => exact List.mem_cons_of_mem _ (Agenda.mem_of_mem_shorten (ih hx))

theorem executed_eq (h : Advances env a p es b q) :
    q.executed = p.executed ++ es.map (·.record) := by
  induction h with
  | refl a p => simp
  | step _ ih => simp [ih]

/-- The failures are the messages of the episodes outside the cleanup. -/
theorem failures_eq (h : Advances env a p es b q) :
    q.failures = p.failures ++ (es.filter (·.phase ≠ .cleanup)).flatMap (·.messages) := by
  induction h with
  | refl a p => simp
  | @step e r b es q _ ih =>
    rw [ih, Episode.after_failures]
    by_cases hc : e.phase = .cleanup <;> simp [hc]

/-- The warnings are the messages of the episodes of the cleanup. -/
theorem cleanupWarnings_eq (h : Advances env a p es b q) :
    q.cleanupWarnings =
      p.cleanupWarnings ++ (es.filter (·.phase = .cleanup)).flatMap (·.messages) := by
  induction h with
  | refl a p => simp
  | @step e r b es q _ ih =>
    rw [ih, Episode.after_cleanupWarnings]
    by_cases hc : e.phase = .cleanup <;> simp [hc]

end Advances

/-! ## Agendas and their courses -/

/-- **A finished course of an agenda** is the events of episodes that empty the agenda: a `Course`
of `runAgenda` against `Advances`. -/
theorem course_runAgenda_some {env : Environment} {a : Agenda} {p q : Progress} {l : List Event} :
    (runAgenda env a p).Course l (some q) ↔
      ∃ es, Advances env a p es [] q ∧ l = eventsOf es := by
  constructor
  · intro h
    induction a, p using runAgenda.induct generalizing l with
    | case1 p =>
      rw [runAgenda] at h
      obtain ⟨rfl, hq⟩ := Process.course_done_iff.1 h
      obtain rfl := Option.some.inj hq
      exact ⟨[], .refl [] q, rfl⟩
    | case2 phase s r p ih =>
      rw [runAgenda] at h
      obtain ⟨l₁, l₂, t, rfl, h₁, h₂⟩ := Process.course_bind_some.1 h
      obtain ⟨es, hes, rfl⟩ := ih t h₂
      let e : Episode env := ⟨phase, s, p, l₁, t, course_runStep_iff.1 h₁⟩
      exact ⟨e :: es, Advances.step (e := e) hes, rfl⟩
  · rintro ⟨es, h, rfl⟩
    -- back again, each episode carries the course of its own step
    generalize hb : ([] : Agenda) = b at h
    induction h with
    | refl a p =>
      subst hb
      rw [runAgenda]
      exact .done p
    | @step e r b es q _ ih =>
      rw [runAgenda]
      exact (course_runStep_iff.2 e.carried).bind (ih hb)

/-- **A course of an agenda that breaks off** is the events of some episodes and then of a step
that breaks off (`Carried`). -/
theorem course_runAgenda_none {env : Environment} {a : Agenda} {p : Progress} {l : List Event} :
    (runAgenda env a p).Course l none ↔
      ∃ es phase s r q l', Advances env a p es ((phase, s) :: r) q ∧
        Carried env s q l' none ∧ l = eventsOf es ++ l' := by
  constructor
  · intro h
    induction a, p using runAgenda.induct generalizing l with
    | case1 p =>
      rw [runAgenda] at h
      cases h
    | case2 phase s r p ih =>
      rw [runAgenda] at h
      rcases Process.course_bind_none.1 h with h | ⟨l₁, l₂, t, rfl, h₁, h₂⟩
      · exact ⟨[], phase, s, r, p, l, .refl _ p, course_runStep_iff.1 h, rfl⟩
      · obtain ⟨es, phase', s', r', q, l', hes, hc, rfl⟩ := ih t h₂
        let e : Episode env := ⟨phase, s, p, l₁, t, course_runStep_iff.1 h₁⟩
        refine ⟨e :: es, phase', s', r', q, l', Advances.step (e := e) hes, hc, ?_⟩
        exact (List.append_assoc _ _ _).symm
  · rintro ⟨es, phase, s, r, q, l', h, hc, rfl⟩
    generalize hb : (phase, s) :: r = b at h
    induction h with
    | refl a p =>
      subst hb
      rw [runAgenda]
      exact (course_runStep_iff.2 hc).bind_broken _
    | @step e r' b es q _ ih =>
      rw [runAgenda, eventsOf, List.flatMap_cons, List.append_assoc]
      exact (course_runStep_iff.2 e.carried).bind (ih hc hb)

/-! ## Histories -/

/-- A run of a case with a client, from one journal to another: episodes that empty the agenda of
the case (`Advances`), every reply of them given by the client (`Client.Answers`). -/
structure History (env : Environment) (client : Client) (c : TestCase) (j : Journal)
    (r : CaseResult) (j' : Journal) where
  episodes : List (Episode env)
  final : Progress
  advances : Advances env c.agenda .start episodes [] final
  answered : client.Answers j (eventsOf episodes)
  journal_eq : j.after (eventsOf episodes) = j'
  result_eq : final.result c = r

namespace History

variable {env : Environment} {client : Client} {c : TestCase} {j j' : Journal} {r : CaseResult}

theorem executed_eq (h : History env client c j r j') :
    r.executed = h.episodes.map (·.record) := by
  obtain ⟨es, q, hes, -, -, rfl⟩ := h
  exact hes.executed_eq

theorem failures_eq (h : History env client c j r j') :
    r.failures = (h.episodes.filter (·.phase ≠ .cleanup)).flatMap (·.messages) := by
  obtain ⟨es, q, hes, -, -, rfl⟩ := h
  exact hes.failures_eq

theorem cleanupWarnings_eq (h : History env client c j r j') :
    r.cleanupWarnings = (h.episodes.filter (·.phase = .cleanup)).flatMap (·.messages) := by
  obtain ⟨es, q, hes, -, -, rfl⟩ := h
  exact hes.cleanupWarnings_eq

theorem passed_iff (h : History env client c j r j') : r.passed = true ↔ r.failures = [] := by
  rw [← h.result_eq]
  exact List.isEmpty_iff

theorem context_eq (h : History env client c j r j') : r.context = h.final.context := by
  obtain ⟨es, q, -, -, -, rfl⟩ := h
  rfl

theorem requests_eq (h : History env client c j r j') :
    j'.requests = j.requests ++ requestsOf (eventsOf h.episodes) := by
  obtain ⟨es, q, -, -, rfl, -⟩ := h
  exact Journal.requests_after j _

/-- The episodes of a `History` fall into those before the cleanup and those of the cleanup. -/
structure Divided (h : History env client c j r j') (main cleanup : List (Episode env)) : Prop where
  episodes_eq : h.episodes = main ++ cleanup
  main_phase : ∀ e ∈ main, e.phase ≠ .cleanup
  cleanup_phase : ∀ e ∈ cleanup, e.phase = .cleanup

end History

namespace History.Divided

variable {env : Environment} {client : Client} {c : TestCase} {j j' : Journal} {r : CaseResult}
  {h : History env client c j r j'} {main cleanup : List (Episode env)}

/-- What the episodes outside the cleanup are. -/
theorem filter_ne (d : h.Divided main cleanup) :
    h.episodes.filter (·.phase ≠ .cleanup) = main := by
  have hmain : main.filter (·.phase ≠ .cleanup) = main := by
    rw [List.filter_eq_self]
    intro e he
    exact decide_eq_true (d.main_phase e he)
  have hcleanup : cleanup.filter (·.phase ≠ .cleanup) = [] := by
    rw [List.filter_eq_nil_iff]
    intro e he
    simpa using d.cleanup_phase e he
  rw [d.episodes_eq, List.filter_append, hmain, hcleanup, List.append_nil]

/-- What the episodes of the cleanup are. -/
theorem filter_eq (d : h.Divided main cleanup) :
    h.episodes.filter (·.phase = .cleanup) = cleanup := by
  have hmain : main.filter (·.phase = .cleanup) = [] := by
    rw [List.filter_eq_nil_iff]
    intro e he
    simpa using d.main_phase e he
  have hcleanup : cleanup.filter (·.phase = .cleanup) = cleanup := by
    rw [List.filter_eq_self]
    intro e he
    exact decide_eq_true (d.cleanup_phase e he)
  rw [d.episodes_eq, List.filter_append, hmain, hcleanup, List.nil_append]

theorem failures_eq (d : h.Divided main cleanup) : r.failures = main.flatMap (·.messages) := by
  rw [h.failures_eq, d.filter_ne]

theorem cleanupWarnings_eq (d : h.Divided main cleanup) :
    r.cleanupWarnings = cleanup.flatMap (·.messages) := by
  rw [h.cleanupWarnings_eq, d.filter_eq]

/-- The verdict is that nothing before the cleanup has a message. -/
theorem passed_iff (d : h.Divided main cleanup) :
    r.passed = true ↔ main.flatMap (·.messages) = [] := by
  rw [h.passed_iff, d.failures_eq]

theorem executed_filter_eq (d : h.Divided main cleanup) :
    r.executed.filter (·.phase ≠ .cleanup) = main.map (·.record) := by
  rw [h.executed_eq, List.filter_map]
  exact congrArg (List.map _) d.filter_ne

theorem requests_eq (d : h.Divided main cleanup) :
    j'.requests =
      j.requests ++ requestsOf (eventsOf main) ++ requestsOf (eventsOf cleanup) := by
  rw [h.requests_eq, d.episodes_eq, eventsOf_append, requestsOf_append, List.append_assoc]

end History.Divided

/-- **A run that gives a result has a history, and a history is such a run**: `runCase`, played by
the client, against `History`. -/
theorem play_runCase_iff {env : Environment} {client : Client} {c : TestCase} {j j' : Journal}
    {r : CaseResult} :
    (runCase env c).play client j = (some r, j') ↔ Nonempty (History env client c j r j') := by
  rw [Process.play_eq_iff, runCase_eq]
  constructor
  · rintro ⟨l, h, ha, hj⟩
    obtain ⟨l₁, l₂, q, rfl, h₁, h₂⟩ := Process.course_bind_some.1 h
    obtain ⟨rfl, hr⟩ := Process.course_done_iff.1 h₂
    obtain ⟨es, hes, rfl⟩ := course_runAgenda_some.1 h₁
    rw [List.append_nil] at ha hj
    exact ⟨⟨es, q, hes, ha, hj, (Option.some.inj hr).symm⟩⟩
  · rintro ⟨es, q, hes, ha, hj, hr⟩
    refine ⟨eventsOf es, ?_, ha, hj⟩
    refine Process.course_bind_some.2 ⟨eventsOf es, [], q, (List.append_nil _).symm, ?_, ?_⟩
    · exact course_runAgenda_some.2 ⟨es, hes, rfl⟩
    · exact Process.course_done_iff.2 ⟨rfl, congrArg some hr.symm⟩

/-! ## Runs without a result -/

/-- The run of a case with a client comes to judge a response to a step, while the variables are
`ctx`: earlier episodes have led to the step (`Advances`), the step is wanted and has a request,
and every answer before the response called for another attempt (`Repeats`). -/
def Judges (env : Environment) (client : Client) (c : TestCase) (j : Journal) (s : Step)
    (ctx : Context) (r : Response) : Prop :=
  ∃ es phase rest q request replies,
    Advances env c.agenda .start es ((phase, s) :: rest) q ∧ q.context = ctx ∧
      s.isWanted ctx = true ∧
      s.request.prepare env.settings env.users ctx = .ok request ∧
      replies.length < (RetryPolicy.ofStep s).maxAttempts ∧
      (∀ reply ∈ replies, s.Repeats ctx reply) ∧
      client.Answers j (eventsOf es ++ s.triesEvents request 0 (replies ++ [.ok r]))

/-- A run judges responses to the steps of its case only. -/
theorem Judges.exists_mem_agenda {env : Environment} {client : Client} {c : TestCase} {j : Journal}
    {s : Step} {ctx : Context} {r : Response} (h : Judges env client c j s ctx r) :
    ∃ phase, (phase, s) ∈ c.agenda := by
  obtain ⟨es, phase, rest, q, request, replies, hes, -⟩ := h
  exact ⟨phase, hes.mem_of_mem_rest List.mem_cons_self⟩

/-- **A run gives no result** exactly when it comes to a response that cannot be judged: it
`Judges` one that `Stalls`. -/
theorem play_runCase_none_iff {env : Environment} {client : Client} {c : TestCase} {j : Journal} :
    ((runCase env c).play client j).1 = none ↔
      ∃ s ctx r, Judges env client c j s ctx r ∧ s.Stalls ctx r := by
  have hplay : ((runCase env c).play client j).1 = none ↔
      ∃ l, (runCase env c).Course l none ∧ client.Answers j l := by
    constructor
    · intro h
      obtain ⟨l, hl, ha, -⟩ := Process.play_eq_iff.1 (Prod.ext h rfl)
      exact ⟨l, hl, ha⟩
    · rintro ⟨l, hl, ha⟩
      rw [Process.play_eq_iff.2 ⟨l, hl, ha, rfl⟩]
  rw [hplay, runCase_eq]
  constructor
  · rintro ⟨l, hl, ha⟩
    rcases Process.course_bind_none.1 hl with hl | ⟨l₁, l₂, q, -, -, h₂⟩
    · obtain ⟨es, phase, s, rest, q, l', hes, hc, rfl⟩ := course_runAgenda_none.1 hl
      obtain ⟨hw, request, hp, replies, r, rfl, hlen, hrep, hs⟩ := carried_none_iff.1 hc
      exact ⟨s, q.context, r,
        ⟨es, phase, rest, q, request, replies, hes, rfl, hw, hp, hlen, hrep, ha⟩, hs⟩
    · cases h₂
  · rintro ⟨s, ctx, r, ⟨es, phase, rest, q, request, replies, hes, rfl, hw, hp, hlen, hrep, ha⟩, hs⟩
    refine ⟨_, (course_runAgenda_none.2 ?_).bind_broken _, ha⟩
    refine ⟨es, phase, s, rest, q, _, hes, ?_, rfl⟩
    exact carried_none_iff.2 ⟨hw, request, hp, replies, r, rfl, hlen, hrep, hs⟩

/-- A run that comes to no response that `Stalls` gives a result. -/
theorem exists_play_runCase {env : Environment} {client : Client} {c : TestCase} {j : Journal}
    (h : ∀ s ctx r, Judges env client c j s ctx r → ¬ s.Stalls ctx r) :
    ∃ r j', (runCase env c).play client j = (some r, j') := by
  cases hr : ((runCase env c).play client j).1 with
  | some r => exact ⟨r, _, Prod.ext hr rfl⟩
  | none =>
    obtain ⟨s, ctx, r, hj, hs⟩ := play_runCase_none_iff.1 hr
    exact absurd hs (h s ctx r hj)

end RestCase
