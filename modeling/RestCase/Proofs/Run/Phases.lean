/-
# RestCase.Proofs.Run.Phases — phases of a run

What a run carries out falls into four parts, one for each phase (`Parts`).  The preconditions and
the setup are carried out up to the first step that fails (`UpToFailure`); what comes after them,
the cleanup excepted, is left out if they have one.  The execution is carried out in full when it is
reached, and the cleanup always is (`InFull`).  The messages of the result are the messages of these
parts, and the verdict is that none of the steps before the cleanup failed (`ByPhases`).

One phase at the front of an agenda is carried out up to the step that cuts it
(`Advances.exists_front`), and a run whose paths can be followed returns with a result of this shape
(`exists_byPhases`).
-/
import RestCase.Proofs.Run.Returning

namespace RestCase

variable {env : Environment}

/-! ## One phase -/

/-- Episodes of a phase up to the one that cuts the case short (`Episode.cuts`), if there is one. -/
structure UpToCut [Pattern.Engine] [Url.Names] (phase : Phase) (steps : List Step)
    (l : List (Episode env)) : Prop where
  phase_eq : ∀ e ∈ l, e.phase = phase
  begins : l.map (·.step) <+: steps
  cuts_last : ∀ e ∈ l.dropLast, e.cuts = false
  whole : l.any (·.cuts) = false → l.map (·.step) = steps

theorem UpToCut.nil [Pattern.Engine] [Url.Names] (phase : Phase) :
    UpToCut phase [] ([] : List (Episode env)) where
  phase_eq := by simp
  begins := List.prefix_refl _
  cuts_last := by simp
  whole := fun _ => rfl

/-- An episode that cuts the case short is the last one of its phase. -/
theorem UpToCut.last [Pattern.Engine] [Url.Names] {e : Episode env} (he : e.cuts = true)
    (steps : List Step) :
    UpToCut e.phase (e.step :: steps) [e] where
  phase_eq := by simp
  begins := by simp
  cuts_last := by simp
  whole := by simp [he]

/-- Another episode begins a phase that goes on. -/
theorem UpToCut.cons [Pattern.Engine] [Url.Names] {e : Episode env} (he : e.cuts = false)
    {steps : List Step} {l : List (Episode env)} (h : UpToCut e.phase steps l) :
    UpToCut e.phase (e.step :: steps) (e :: l) where
  phase_eq := by
    intro x hx
    rcases List.mem_cons.1 hx with rfl | hx
    · rfl
    · exact h.phase_eq x hx
  begins := by
    rw [List.map_cons]
    exact (List.prefix_cons_inj e.step).2 h.begins
  cuts_last := by
    intro x hx
    -- the episode put in front is the last one only if no other follows
    cases l with
    | nil => cases hx
    | cons f l =>
      rw [List.dropLast_cons_of_ne_nil (List.cons_ne_nil f l)] at hx
      rcases List.mem_cons.1 hx with rfl | hx
      · exact he
      · exact h.cuts_last x hx
  whole := by
    intro hany
    rw [List.any_cons, he, Bool.false_or] at hany
    rw [List.map_cons, h.whole hany]

/-- **A phase at the front of an agenda** is carried out up to the step that cuts the case short
(`UpToCut`); the rest of the agenda is cut with it. -/
theorem Advances.exists_front [Pattern.Engine] [Url.Names] {phase : Phase} {steps : List Step}
    {rest : Agenda} {p q : Progress}
    {es : List (Episode env)} (h : Advances env (phase.entries steps ++ rest) p es [] q) :
    ∃ front back mid, es = front ++ back ∧ UpToCut phase steps front ∧
      Advances env (Agenda.shorten (front.any (·.cuts)) rest) mid back [] q := by
  induction steps generalizing p es with
  | nil => exact ⟨[], es, p, rfl, .nil phase, h⟩
  | cons s steps ih =>
    generalize ha : phase.entries (s :: steps) ++ rest = a at h
    cases h with
    | refl => cases ha
    | @step e r _ es _ h =>
      obtain ⟨⟨rfl, rfl⟩, rfl⟩ : (phase = e.phase ∧ s = e.step) ∧
          Phase.entries phase steps ++ rest = r := by simpa [Phase.entries] using ha
      cases hcut : e.cuts with
      | false =>
        rw [hcut] at h
        obtain ⟨front, back, mid, rfl, hfront, hback⟩ := ih h
        refine ⟨e :: front, back, mid, rfl, .cons hcut hfront, ?_⟩
        rw [List.any_cons, hcut, Bool.false_or]
        exact hback
      | true =>
        -- the steps of the phase are cut with the rest: the cleanup itself never cuts
        have hphase : e.phase ≠ .cleanup := by
          intro hc
          have := (Episode.cuts_iff.1 hcut).1
          rw [hc] at this
          cases this
        rw [hcut, Agenda.shorten_append, Agenda.shorten_entries hphase, List.nil_append] at h
        refine ⟨[e], es, e.after, rfl, .last hcut steps, ?_⟩
        rw [List.any_cons, hcut, Bool.true_or]
        exact h

/-! ## Phases that end with a failure, and phases that do not -/

/-- Episodes of a phase that ends with its first failed step (`Phase.abortsOnFailure`): they begin
the phase, only the last of them can have failed, and unless it has they are the whole phase. -/
structure UpToFailure [Pattern.Engine] [Url.Names] (phase : Phase) (steps : List Step)
    (l : List (Episode env)) : Prop where
  phase_eq : ∀ e ∈ l, e.phase = phase
  begins : l.map (·.step) <+: steps
  failed_last : ∀ e ∈ l.dropLast, ¬ e.Failed
  whole : (∀ e, l.getLast? = some e → ¬ e.Failed) → l.map (·.step) = steps

/-- Episodes of all steps of a phase, in order (`TestCase.steps`). -/
structure InFull [Pattern.Engine] [Url.Names] (phase : Phase) (steps : List Step)
    (l : List (Episode env)) : Prop where
  phase_eq : ∀ e ∈ l, e.phase = phase
  steps_eq : l.map (·.step) = steps

section Cuts

variable [Pattern.Engine] [Url.Names] {phase : Phase} {steps : List Step} {l : List (Episode env)}

/-- In a phase that ends with a failure, being cut is failing. -/
theorem UpToCut.cuts_iff (h : UpToCut phase steps l) (hp : phase.abortsOnFailure = true)
    {e : Episode env} (he : e ∈ l) : e.cuts = true ↔ e.Failed := by
  rw [Episode.cuts_iff, h.phase_eq e he]
  exact ⟨fun hc => hc.2, fun hf => ⟨hp, hf⟩⟩

theorem UpToCut.any_cuts_iff (h : UpToCut phase steps l) (hp : phase.abortsOnFailure = true) :
    l.any (·.cuts) = true ↔ ∃ e ∈ l, e.Failed := by
  rw [List.any_eq_true]
  constructor
  · rintro ⟨e, he, hc⟩
    exact ⟨e, he, (h.cuts_iff hp he).1 hc⟩
  · rintro ⟨e, he, hf⟩
    exact ⟨e, he, (h.cuts_iff hp he).2 hf⟩

theorem UpToCut.upToFailure (h : UpToCut phase steps l) (hp : phase.abortsOnFailure = true) :
    UpToFailure phase steps l where
  phase_eq := h.phase_eq
  begins := h.begins
  failed_last := by
    intro e he hf
    have hc := (h.cuts_iff hp (List.dropLast_subset l he)).2 hf
    rw [h.cuts_last e he] at hc
    cases hc
  whole := by
    intro hlast
    refine h.whole (Bool.eq_false_iff.2 ?_)
    intro hany
    -- an episode that cuts is the last one, and it has failed
    obtain ⟨e, he, hc⟩ := List.any_eq_true.1 hany
    have hne : l ≠ [] := List.ne_nil_of_mem he
    have hsplit : e ∈ l.dropLast ++ [l.getLast hne] := by
      rw [List.dropLast_concat_getLast]
      exact he
    rcases List.mem_append.1 hsplit with hd | hl
    · rw [h.cuts_last e hd] at hc
      cases hc
    · obtain rfl := List.mem_singleton.1 hl
      exact hlast _ (List.getLast?_eq_some_getLast hne) ((h.cuts_iff hp he).1 hc)

/-- Nothing cuts a phase that goes on after failures. -/
theorem UpToCut.any_cuts_eq_false (h : UpToCut phase steps l)
    (hp : phase.abortsOnFailure = false) : l.any (·.cuts) = false := by
  rw [Bool.eq_false_iff]
  intro hany
  obtain ⟨e, he, hc⟩ := List.any_eq_true.1 hany
  have := (Episode.cuts_iff.1 hc).1
  rw [h.phase_eq e he, hp] at this
  cases this

theorem UpToCut.inFull (h : UpToCut phase steps l) (hp : phase.abortsOnFailure = false) :
    InFull phase steps l :=
  ⟨h.phase_eq, h.whole (h.any_cuts_eq_false hp)⟩

end Cuts

/-! ## The four parts of a run -/

/-- Episodes of the four phases of a case, as a run carries them out: each is `UpToFailure` or
`InFull`. -/
structure Parts [Pattern.Engine] [Url.Names] (c : TestCase) (P S E C : List (Episode env)) :
    Prop where
  /-- The preconditions are carried out up to the first failure. -/
  preconditions : UpToFailure .preconditions c.preconditions P
  /-- So is the setup, unless a precondition failed. -/
  setup : (∀ e ∈ P, ¬ e.Failed) → UpToFailure .setup c.setup S
  no_setup : (∃ e ∈ P, e.Failed) → S = []
  /-- The execution is carried out in full, unless a step before it failed. -/
  execution : (∀ e ∈ P ++ S, ¬ e.Failed) → InFull .execution c.execution E
  no_execution : (∃ e ∈ P ++ S, e.Failed) → E = []
  /-- The cleanup is carried out in full whatever failed. -/
  cleanup : InFull .cleanup c.cleanup C

theorem TestCase.agenda_eq (c : TestCase) :
    c.agenda = Phase.entries .preconditions c.preconditions ++
      (Phase.entries .setup c.setup ++ (Phase.entries .execution c.execution ++
        Phase.entries .cleanup c.cleanup)) := by
  simp [TestCase.agenda, TestCase.entriesOf, Phase.all, TestCase.steps]

/-- A phase that ends with a failure, at the front of an agenda: the rest is cut if it failed, and
goes on otherwise. -/
theorem Advances.exists_upToFailure [Pattern.Engine] [Url.Names] {phase : Phase}
    (hp : phase.abortsOnFailure = true)
    {steps : List Step} {rest : Agenda} {p q : Progress} {es : List (Episode env)}
    (h : Advances env (phase.entries steps ++ rest) p es [] q) :
    ∃ front back mid, es = front ++ back ∧ UpToFailure phase steps front ∧
      ((∃ e ∈ front, e.Failed) ∧ Advances env (Agenda.shorten true rest) mid back [] q ∨
        (∀ e ∈ front, ¬ e.Failed) ∧ Advances env rest mid back [] q) := by
  obtain ⟨front, back, mid, rfl, hfront, hback⟩ := h.exists_front
  refine ⟨front, back, mid, rfl, hfront.upToFailure hp, ?_⟩
  have hany := hfront.any_cuts_iff hp
  cases hcut : front.any (·.cuts) with
  | true =>
    rw [hcut] at hback
    exact Or.inl ⟨hany.1 hcut, hback⟩
  | false =>
    rw [hcut, Agenda.shorten_false] at hback
    refine Or.inr ⟨?_, hback⟩
    intro e he hf
    exact Bool.false_ne_true (hcut.symm.trans (hany.2 ⟨e, he, hf⟩))

/-- A phase that goes on after failures, at the front of an agenda: the rest follows. -/
theorem Advances.exists_inFull [Pattern.Engine] [Url.Names] {phase : Phase}
    (hp : phase.abortsOnFailure = false)
    {steps : List Step} {rest : Agenda} {p q : Progress} {es : List (Episode env)}
    (h : Advances env (phase.entries steps ++ rest) p es [] q) :
    ∃ front back mid, es = front ++ back ∧ InFull phase steps front ∧
      Advances env rest mid back [] q := by
  obtain ⟨front, back, mid, rfl, hfront, hback⟩ := h.exists_front
  rw [hfront.any_cuts_eq_false hp, Agenda.shorten_false] at hback
  exact ⟨front, back, mid, rfl, hfront.inFull hp, hback⟩

/-- The cleanup at the end of an agenda is carried out in full. -/
theorem Advances.inFull_cleanup [Pattern.Engine] [Url.Names] {steps : List Step} {p q : Progress}
    {es : List (Episode env)}
    (h : Advances env (Phase.entries .cleanup steps) p es [] q) : InFull .cleanup steps es := by
  rw [← List.append_nil (Phase.entries .cleanup steps)] at h
  obtain ⟨C, back, mid, rfl, hC, h⟩ := h.exists_inFull rfl
  cases h
  rw [List.append_nil]
  exact hC

/-- **The episodes of a whole agenda** fall into those of the four phases (`Parts`). -/
theorem Advances.exists_parts [Pattern.Engine] [Url.Names] {c : TestCase} {p q : Progress}
    {es : List (Episode env)} (h : Advances env c.agenda p es [] q) :
    ∃ P S E C, es = P ++ S ++ E ++ C ∧ Parts c P S E C := by
  rw [TestCase.agenda_eq] at h
  obtain ⟨P, back, p₁, rfl, hP, ⟨⟨e, he, hf⟩, h⟩ | ⟨hPno, h⟩⟩ := h.exists_upToFailure rfl
  · -- a failed precondition leaves the cleanup alone on the agenda
    rw [Agenda.shorten_append, Agenda.shorten_entries (by decide), List.nil_append,
      Agenda.shorten_append, Agenda.shorten_entries (by decide), List.nil_append,
      Agenda.shorten_cleanup] at h
    refine ⟨P, [], [], back, by simp, hP, ?_, fun _ => rfl, ?_, fun _ => rfl, h.inFull_cleanup⟩
    · intro hno
      exact absurd hf (hno e he)
    · intro hno
      exact absurd hf (hno e (List.mem_append_left [] he))
  have hP' : ¬ ∃ e ∈ P, e.Failed := by
    rintro ⟨e, he, hf⟩
    exact hPno e he hf
  obtain ⟨S, back, p₂, rfl, hS, ⟨⟨e, he, hf⟩, h⟩ | ⟨hSno, h⟩⟩ := h.exists_upToFailure rfl
  · -- so does a failed step of the setup
    rw [Agenda.shorten_append, Agenda.shorten_entries (by decide), List.nil_append,
      Agenda.shorten_cleanup] at h
    refine ⟨P, S, [], back, by simp, hP, fun _ => hS, fun hf => absurd hf hP', ?_, fun _ => rfl,
      h.inFull_cleanup⟩
    intro hno
    exact absurd hf (hno e (List.mem_append_right P he))
  · obtain ⟨E, C, p₃, rfl, hE, h⟩ := h.exists_inFull rfl
    refine ⟨P, S, E, C, by simp, hP, fun _ => hS, fun hf => absurd hf hP', fun _ => hE, ?_,
      h.inFull_cleanup⟩
    rintro ⟨e, he, hf⟩
    rcases List.mem_append.1 he with he | he
    · exact absurd hf (hPno e he)
    · exact absurd hf (hSno e he)

/-- The steps before the cleanup are steps of other phases. -/
theorem Parts.phase_ne_cleanup [Pattern.Engine] [Url.Names] {c : TestCase}
    {P S E C : List (Episode env)}
    (h : Parts c P S E C) {e : Episode env} (he : e ∈ P ++ S ++ E) : e.phase ≠ .cleanup := by
  -- a phase that was left out has no episodes
  have hS : ∀ e ∈ S, e.phase = .setup := by
    by_cases hf : ∃ e ∈ P, e.Failed
    · simp [h.no_setup hf]
    · exact (h.setup fun e he hfe => hf ⟨e, he, hfe⟩).phase_eq
  have hE : ∀ e ∈ E, e.phase = .execution := by
    by_cases hf : ∃ e ∈ P ++ S, e.Failed
    · simp [h.no_execution hf]
    · exact (h.execution fun e he hfe => hf ⟨e, he, hfe⟩).phase_eq
  rcases List.mem_append.1 he with he | he
  · rcases List.mem_append.1 he with he | he
    · rw [h.preconditions.phase_eq e he]
      decide
    · rw [hS e he]
      decide
  · rw [hE e he]
    decide

/-! ## Runs -/

/-- The result of a run by phases: what was carried out of the preconditions, the setup, the
execution and the cleanup (`Parts`), and what the messages and the verdict come to. -/
structure ByPhases [Pattern.Engine] [Url.Names] (c : TestCase) (r : CaseResult)
    (P S E C : List (Episode env)) : Prop
    extends Parts c P S E C where
  executed_eq : r.executed = (P ++ S ++ E ++ C).map (·.record)
  failures_eq : r.failures = (P ++ S ++ E).flatMap (·.messages)
  cleanupWarnings_eq : r.cleanupWarnings = C.flatMap (·.messages)
  messages_ne_nil_iff : ∀ e ∈ P ++ S ++ E ++ C, e.messages ≠ [] ↔ e.record.status = .failed
  passed_iff : r.passed = true ↔ ∀ e ∈ P ++ S ++ E, e.record.status ≠ .failed

theorem History.byPhases [Pattern.Engine] [Url.Names] {client : Client} {c : TestCase}
    {j j' : Journal} {r : CaseResult}
    (h : History env client c j r j') {P S E C : List (Episode env)}
    (hes : h.episodes = P ++ S ++ E ++ C) (hparts : Parts c P S E C) : ByPhases c r P S E C := by
  have hdivided : h.Divided (P ++ S ++ E) C :=
    ⟨hes, fun _ he => hparts.phase_ne_cleanup he, hparts.cleanup.phase_eq⟩
  refine ⟨hparts, ?_, hdivided.failures_eq, hdivided.cleanupWarnings_eq, ?_, ?_⟩
  · rw [h.executed_eq, hes]
  · intro e _
    exact e.messages_ne_nil_iff
  · rw [hdivided.passed_iff, List.flatMap_eq_nil_iff]
    refine forall₂_congr ?_
    intro e _
    rw [Ne, ← e.messages_ne_nil_iff, Ne, Decidable.not_not]

/-- **A run by phases** (`ByPhases`).  A run that comes to no path that cannot be followed (it
`Judges` no response on which the step `BreaksOn`) returns.  What it executed is a part of the
preconditions up to their first failure, then of the setup in the same way, then the execution, each
left out after a failure, and then the whole cleanup.  The failures are the messages of the failed
steps before the cleanup, the warnings those of the cleanup; every failed step has a message and no
other step has one; and the case has passed when no step before the cleanup failed. -/
theorem exists_byPhases [Pattern.Engine] [Url.Names] {client : Client} {c : TestCase} {j : Journal}
    (h : ∀ s ctx r, Judges env client c j s ctx r → ¬ s.BreaksOn ctx r) :
    ∃ r j', (runCase env c).play client j = (some r, j') ∧
      ∃ (history : History env client c j r j') (P S E C : List (Episode env)),
        history.episodes = P ++ S ++ E ++ C ∧ ByPhases c r P S E C := by
  have hreturns : ∀ s ctx r, Judges env client c j s ctx r → ¬ s.Stalls ctx r :=
    fun s ctx r hj hs => h s ctx r hj (stalls_iff.1 hs)
  obtain ⟨r, j', hplay⟩ := exists_play_runCase hreturns
  obtain ⟨history⟩ := play_runCase_iff.1 hplay
  obtain ⟨P, S, E, C, hes, hparts⟩ := history.advances.exists_parts
  exact ⟨r, j', hplay, history, P, S, E, C, hes, history.byPhases hes hparts⟩

namespace BrokenSetup

/-- A step that wants a status and takes the first element of the response. -/
def step (name : String) (status : Nat) : Step :=
  { Step.plain name (.plain .get "x://h") with
    verification := some ⟨some status, .empty, [⟨"$[0]", .null, "isNotNull"⟩],
      [⟨"$[0]", name, none⟩]⟩ }

/-- A case with a setup that fails in its second step. -/
def case : TestCase :=
  ⟨"broken setup", none, [step "first" 200], [step "second" 200, step "third" 404,
    step "fourth" 200], [step "fifth" 200], [step "sixth" 404, step "seventh" 200]⟩

/-- A client that answers with an array. -/
def client : Client := fun _ => .ok ⟨200, [], "[1]"⟩

end BrokenSetup

/-- A run whose setup fails has the shape too. -/
theorem exists_byPhases_brokenSetup :
    (∀ e ∈ BrokenSetup.case.agenda, e.2.isSound = true) ∧
      ∃ r j', (runCase ⟨.standard, .empty⟩ BrokenSetup.case).play BrokenSetup.client .empty =
          (some r, j') ∧
        ∃ (history : History ⟨.standard, .empty⟩ BrokenSetup.client BrokenSetup.case .empty r j')
          (P S E C : List (Episode ⟨.standard, .empty⟩)),
          history.episodes = P ++ S ++ E ++ C ∧ ByPhases BrokenSetup.case r P S E C := by
  have hsound : ∀ e ∈ BrokenSetup.case.agenda, e.2.isSound = true := by decide +kernel
  refine ⟨hsound, exists_byPhases ?_⟩
  intro s ctx r hj
  obtain ⟨phase, hmem⟩ := hj.exists_mem_agenda
  exact not_breaksOn_of_isSound (hsound _ hmem) ctx r

end RestCase
