/-
# RestCase.Proofs.Run.Cleanup — the cleanup has no say in the verdict

The cleanup comes last, shares the variables and the client with everything before it and writes to
the same result.  Whatever was cut short, it stays at the end of the agenda
(`runAgenda_append_cleanup`), so that a run is a run of the steps before the cleanup, which does not
know of it, and then a run of the cleanup.  Two cases that differ in the cleanup only therefore have
the same episodes up to it, with every client, and what a result says apart from the cleanup is told
by these (`exists_common_episodes`).
-/
import RestCase.Proofs.Run.History

namespace RestCase

variable {env : Environment}

/-! ## The steps before the cleanup -/

/-- The steps of a case before its cleanup: `TestCase.agenda` without the last phase. -/
def TestCase.mainAgenda (c : TestCase) : Agenda := c.entriesOf [.preconditions, .setup, .execution]

theorem TestCase.agenda_eq_mainAgenda (c : TestCase) :
    c.agenda = c.mainAgenda ++ Phase.entries .cleanup c.cleanup := by
  simp [TestCase.agenda, TestCase.mainAgenda, TestCase.entriesOf, Phase.all, TestCase.steps]

theorem TestCase.phase_ne_cleanup_of_mem_mainAgenda {c : TestCase} {x : Phase × Step}
    (h : x ∈ c.mainAgenda) : x.1 ≠ .cleanup := by
  obtain ⟨phase, hphase, hx⟩ := List.mem_flatMap.1 h
  obtain ⟨s, -, rfl⟩ := List.mem_map.1 hx
  rintro rfl
  simp at hphase

/-- **The cleanup at the end of an agenda runs after the rest of it**, whatever `shorten` cuts
from that. -/
theorem runAgenda_append_cleanup [Pattern.Engine] [Url.Names] (env : Environment) (a : Agenda)
    (steps : List Step) (p : Progress) :
    runAgenda env (a ++ Phase.entries .cleanup steps) p =
      (runAgenda env a p).bind (runAgenda env (Phase.entries .cleanup steps)) := by
  induction a, p using runAgenda.induct with
  | case1 p =>
    rw [List.nil_append, runAgenda.eq_1 env p]
    rfl
  | case2 phase s r p ih =>
    rw [List.cons_append, runAgenda.eq_2 env p phase s r, runAgenda.eq_2, Process.bind_assoc]
    congr 1
    funext t
    -- a step that cuts the agenda leaves the cleanup behind it as it was
    rw [Agenda.shorten_append, Agenda.shorten_cleanup]
    exact ih t

/-- Episodes that lead along an agenda lead along it with the cleanup behind it. -/
theorem Advances.append_cleanup [Pattern.Engine] [Url.Names] {a b : Agenda} {p q : Progress}
    {es : List (Episode env)} (h : Advances env a p es b q) (steps : List Step) :
    Advances env (a ++ Phase.entries .cleanup steps) p es
      (b ++ Phase.entries .cleanup steps) q := by
  induction h with
  | refl a p => exact .refl _ p
  | step _ ih =>
    rw [List.cons_append]
    refine .step ?_
    rw [Agenda.shorten_append, Agenda.shorten_cleanup]
    exact ih

/-! ## Playing up to the cleanup and beyond -/

section Runs

variable [Pattern.Engine] [Url.Names] {client : Client} {c : TestCase} {j jm j' : Journal}
    {r : CaseResult} {p : Progress}

/-- A run that gives a result comes through the `mainAgenda` to the cleanup, and from there to the
result. -/
theorem exists_play_mainAgenda (h : (runCase env c).play client j = (some r, j')) :
    ∃ p jm, (runAgenda env c.mainAgenda .start).play client j = (some p, jm) ∧
      ∃ q, (runAgenda env (Phase.entries .cleanup c.cleanup) p).play client jm = (some q, j') ∧
        q.result c = r := by
  rw [runCase_eq, TestCase.agenda_eq_mainAgenda, runAgenda_append_cleanup, Process.bind_assoc] at h
  obtain ⟨p, jm, hmain, h⟩ := Process.exists_play_of_bind h
  obtain ⟨q, jc, hrest, h⟩ := Process.exists_play_of_bind h
  obtain ⟨hr, rfl⟩ := Prod.mk.inj h
  exact ⟨p, jm, hmain, q, hrest, Option.some.inj hr⟩

/-- An agenda that is played to its end has episodes for it. -/
theorem exists_advances_of_play {a : Agenda} {q : Progress}
    (h : (runAgenda env a p).play client j = (some q, j')) :
    ∃ es, Advances env a p es [] q ∧ client.Answers j (eventsOf es) ∧
      j.after (eventsOf es) = j' := by
  obtain ⟨l, hl, ha, hj⟩ := Process.play_eq_iff.1 h
  obtain ⟨es, hes, rfl⟩ := course_runAgenda_some.1 hl
  exact ⟨es, hes, ha, hj⟩

/-- The episodes before the cleanup begin a history of every run that goes on from them. -/
theorem exists_divided {main : List (Episode env)}
    (hmain : Advances env c.mainAgenda .start main [] p)
    (hanswers : client.Answers j (eventsOf main)) (hj : j.after (eventsOf main) = jm)
    {q : Progress}
    (hq : (runAgenda env (Phase.entries .cleanup c.cleanup) p).play client jm = (some q, j'))
    (hr : q.result c = r) :
    ∃ (history : History env client c j r j') (cleanup : List (Episode env)),
      history.Divided main cleanup := by
  obtain ⟨C, hC, hanswersC, hjC⟩ := exists_advances_of_play hq
  have hall : Advances env c.agenda .start (main ++ C) [] q := by
    rw [TestCase.agenda_eq_mainAgenda]
    exact (hmain.append_cleanup c.cleanup).trans hC
  refine ⟨⟨main ++ C, q, hall, ?_, ?_, hr⟩, C, rfl, ?_, ?_⟩
  · rw [eventsOf_append, answers_append, hj]
    exact ⟨hanswers, hanswersC⟩
  · rw [eventsOf_append, Journal.after_append, hj, hjC]
  · intro e he
    exact TestCase.phase_ne_cleanup_of_mem_mainAgenda (hmain.mem_agenda he)
  · intro e he
    obtain ⟨s, -, hs⟩ := List.mem_map.1 (hC.mem_agenda he)
    exact (congrArg Prod.fst hs).symm

/-! ## Two runs -/

/-- **The cleanup has no say in the verdict.**  Two runs with one client of cases that differ in
the cleanup only have the same episodes before the cleanup (`Divided`).  So they pass or fail
together, with the same failures; they execute the same steps outside the cleanup; and they send
the same requests up to the first one of the cleanup. -/
theorem exists_common_episodes {steps : List Step} {r₁ r₂ : CaseResult} {j₁ j₂ : Journal}
    (h₁ : (runCase env c).play client j = (some r₁, j₁))
    (h₂ : (runCase env { c with cleanup := steps }).play client j = (some r₂, j₂)) :
    r₁.passed = r₂.passed ∧ r₁.failures = r₂.failures ∧
      r₁.executed.filter (·.phase ≠ .cleanup) = r₂.executed.filter (·.phase ≠ .cleanup) ∧
      ∃ (history₁ : History env client c j r₁ j₁)
        (history₂ : History env client { c with cleanup := steps } j r₂ j₂)
        (main cleanup₁ cleanup₂ : List (Episode env)),
        history₁.Divided main cleanup₁ ∧ history₂.Divided main cleanup₂ ∧
        j₁.requests =
          j.requests ++ requestsOf (eventsOf main) ++ requestsOf (eventsOf cleanup₁) ∧
        j₂.requests =
          j.requests ++ requestsOf (eventsOf main) ++ requestsOf (eventsOf cleanup₂) := by
  obtain ⟨p, jm, hmain, q₁, hq₁, hr₁⟩ := exists_play_mainAgenda h₁
  obtain ⟨p', jm', hmain', q₂, hq₂, hr₂⟩ := exists_play_mainAgenda h₂
  -- the steps before the cleanup are the same, and so is their play
  obtain ⟨hp, rfl⟩ := Prod.mk.inj (hmain.symm.trans hmain')
  obtain rfl := Option.some.inj hp
  obtain ⟨main, hes, hanswers, hj⟩ := exists_advances_of_play hmain
  obtain ⟨history₁, cleanup₁, d₁⟩ := exists_divided hes hanswers hj hq₁ hr₁
  obtain ⟨history₂, cleanup₂, d₂⟩ :=
    exists_divided (c := { c with cleanup := steps }) hes hanswers hj hq₂ hr₂
  have hpassed : r₁.passed = true ↔ r₂.passed = true := d₁.passed_iff.trans d₂.passed_iff.symm
  refine ⟨Bool.eq_iff_iff.2 hpassed, ?_, ?_, history₁, history₂, main, cleanup₁, cleanup₂, d₁, d₂,
    d₁.requests_eq, d₂.requests_eq⟩
  · rw [d₁.failures_eq, d₂.failures_eq]
  · rw [d₁.executed_filter_eq, d₂.executed_filter_eq]

end Runs

namespace SwappedCleanup

/-- A step that wants a status. -/
def step (name : String) (status : Nat) : Step :=
  { Step.plain name (.plain .get "x://h") with
    verification := some ⟨some status, .empty, [], []⟩ }

/-- A case whose setup fails. -/
def case : TestCase :=
  ⟨"swapped", none, [], [step "setup" 404], [step "execution" 200], [step "cleanup" 200]⟩

/-- Another cleanup, which fails. -/
def cleanup : List Step := [step "undo" 404, step "restore" 404]

/-- A client that answers the first request with another status than the rest. -/
def client : Client := fun sent =>
  if sent.length = 1 then .ok ⟨500, [], ""⟩ else .ok ⟨200, [], ""⟩

end SwappedCleanup

/-- A run with a cleanup that passes and one with a cleanup that fails agree on the verdict. -/
theorem exists_common_episodes_swappedCleanup :
    ∃ r₁ j₁ r₂ j₂,
      (runCase ⟨.standard, .empty⟩ SwappedCleanup.case).play SwappedCleanup.client .empty =
        (some r₁, j₁) ∧
      (runCase ⟨.standard, .empty⟩
          { SwappedCleanup.case with cleanup := SwappedCleanup.cleanup }).play
        SwappedCleanup.client .empty = (some r₂, j₂) ∧
      r₁.passed = r₂.passed ∧ r₁.failures = r₂.failures ∧
      r₁.executed.filter (·.phase ≠ .cleanup) = r₂.executed.filter (·.phase ≠ .cleanup) := by
  have hsome₁ : ((runCase ⟨.standard, .empty⟩ SwappedCleanup.case).play
      SwappedCleanup.client .empty).1.isSome = true := by decide +kernel
  have hsome₂ : ((runCase ⟨.standard, .empty⟩
      { SwappedCleanup.case with cleanup := SwappedCleanup.cleanup }).play
      SwappedCleanup.client .empty).1.isSome = true := by decide +kernel
  obtain ⟨r₁, hr₁⟩ := Option.isSome_iff_exists.1 hsome₁
  obtain ⟨r₂, hr₂⟩ := Option.isSome_iff_exists.1 hsome₂
  obtain ⟨hpassed, hfailures, hexecuted, -⟩ :=
    exists_common_episodes (Prod.ext hr₁ rfl) (Prod.ext hr₂ rfl)
  exact ⟨r₁, _, r₂, _, Prod.ext hr₁ rfl, Prod.ext hr₂ rfl, hpassed, hfailures, hexecuted⟩

end RestCase
