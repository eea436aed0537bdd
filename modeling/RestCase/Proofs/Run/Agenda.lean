/-
# RestCase.Proofs.Run.Agenda — the agenda of a case

The nested loops over phases and steps come down to one list: the `Agenda` holds every step of a
case with its phase, in order.  The first step of the agenda is carried out; after a failed step of
a phase that ends with it, only the cleanup stays on the agenda (`Agenda.shorten`).  A phase at the
front of an agenda is run as a phase (`runAgenda_entries`), and so this is the same process as the
nested loops (`runPhases_eq_runAgenda`).

What has to be known of the loops is what one step does to the agenda, and an induction on a run is
an induction on a list.
-/
import RestCase.Proofs.Run.Trial

namespace RestCase

/-! ## Agendas -/

/-- Steps that are still to be carried out, each with its phase. -/
abbrev Agenda := List (Phase × Step)

/-- The steps of a phase as a part of an agenda. -/
def Phase.entries (phase : Phase) (steps : List Step) : Agenda := steps.map fun s => (phase, s)

/-- The steps of some phases of a case. -/
def TestCase.entriesOf (c : TestCase) (phases : List Phase) : Agenda :=
  phases.flatMap fun phase => phase.entries (c.steps phase)

/-- Every step of a case, in the order of `Phase.all`. -/
def TestCase.agenda (c : TestCase) : Agenda := c.entriesOf Phase.all

/-- The outcome of a step cuts the case short. -/
def Phase.isCutBy (phase : Phase) (o : Outcome) : Bool :=
  phase.abortsOnFailure && o.status == .failed

theorem Phase.isCutBy_iff {phase : Phase} {o : Outcome} :
    phase.isCutBy o = true ↔ phase.abortsOnFailure = true ∧ o.status = .failed := by
  simp [Phase.isCutBy]

namespace Agenda

/-- What is left of an agenda: only the cleanup, once the case was cut short (`Phase.isCutBy`). -/
def shorten (cut : Bool) (a : Agenda) : Agenda :=
  if cut then a.filter fun e => e.1 == .cleanup else a

@[simp] theorem shorten_false (a : Agenda) : shorten false a = a := rfl

@[simp] theorem shorten_nil (cut : Bool) : shorten cut [] = [] := by
  cases cut <;> rfl

theorem shorten_append (cut : Bool) (a b : Agenda) :
    shorten cut (a ++ b) = shorten cut a ++ shorten cut b := by
  cases cut with
  | false => rfl
  | true => exact List.filter_append a b

theorem shorten_shorten (c d : Bool) (a : Agenda) :
    shorten c (shorten d a) = shorten (d || c) a := by
  cases c <;> cases d <;> simp [shorten]

/-- The cleanup stays as it is. -/
theorem shorten_cleanup (cut : Bool) (steps : List Step) :
    shorten cut (Phase.cleanup.entries steps) = Phase.cleanup.entries steps := by
  cases cut with
  | false => rfl
  | true => simp [shorten, Phase.entries]

/-- Nothing stays of another phase. -/
theorem shorten_entries {phase : Phase} (h : phase ≠ .cleanup) (steps : List Step) :
    shorten true (phase.entries steps) = [] := by
  simp [shorten, Phase.entries, h]

theorem mem_of_mem_shorten {cut : Bool} {a : Agenda} {x : Phase × Step} (h : x ∈ shorten cut a) :
    x ∈ a := by
  cases cut with
  | false => exact h
  | true => exact (List.mem_filter.1 h).1

theorem length_shorten_le (cut : Bool) (a : Agenda) : (shorten cut a).length ≤ a.length := by
  cases cut with
  | false => exact Nat.le_refl _
  | true => exact List.length_filter_le _ a

end Agenda

/-- Carry out an agenda, with `runStep` for each step and `shorten` where one cuts the rest. -/
def runAgenda [Pattern.Engine] [Url.Names] (env : Environment) :
    Agenda → Progress → Process Progress
  | [], p => .done p
  | (phase, s) :: r, p =>
    (runStep env s p).bind fun a =>
      runAgenda env (Agenda.shorten (phase.isCutBy a.outcome) r) (p.after phase s a)
termination_by a => a.length
decreasing_by exact Nat.lt_succ_of_le (Agenda.length_shorten_le _ r)

/-! ## The nested loops carry out the agenda -/

/-- A phase at the front of an agenda is run as a phase; if it is cut short, so is the rest. -/
theorem runAgenda_entries [Pattern.Engine] [Url.Names] (env : Environment) (phase : Phase)
    (steps : List Step) (rest : Agenda) (p : Progress) :
    runAgenda env (phase.entries steps ++ rest) p =
      (runPhase env phase steps p).bind fun e =>
        runAgenda env (Agenda.shorten e.2 rest) e.1 := by
  induction steps generalizing p with
  | nil => rfl
  | cons s r ih =>
    rw [runPhase, Process.bind_assoc]
    refine Eq.trans (runAgenda.eq_2 env p phase s (phase.entries r ++ rest)) ?_
    congr 1
    funext a
    cases hcut : phase.isCutBy a.outcome with
    | false =>
      unfold Phase.isCutBy at hcut
      simp only [hcut, Bool.false_eq_true, if_false, Agenda.shorten_false]
      exact ih _
    | true =>
      -- the rest of the phase is cut like the phases behind it, so nothing of it is left
      have hphase : phase ≠ .cleanup := by
        rintro rfl
        cases hcut
      unfold Phase.isCutBy at hcut
      simp only [hcut, if_true]
      rw [Agenda.shorten_append, Agenda.shorten_entries hphase, List.nil_append]
      rfl

/-- **Running phases is carrying out their steps as an agenda**: `runPhases` against `runAgenda`. -/
theorem runPhases_eq_runAgenda [Pattern.Engine] [Url.Names] (env : Environment) (c : TestCase)
    (phases : List Phase) (cut : Bool) (p : Progress) :
    runPhases env c phases cut p = runAgenda env (Agenda.shorten cut (c.entriesOf phases)) p := by
  induction phases generalizing cut p with
  | nil =>
    rw [runPhases, TestCase.entriesOf, List.flatMap_nil, Agenda.shorten_nil, runAgenda]
  | cons phase r ih =>
    have hsplit : Agenda.shorten cut (c.entriesOf (phase :: r)) =
        Agenda.shorten cut (phase.entries (c.steps phase)) ++
          Agenda.shorten cut (c.entriesOf r) := Agenda.shorten_append cut _ _
    rw [runPhases, hsplit]
    split
    · next hskip =>
      obtain ⟨rfl, hphase⟩ : cut = true ∧ phase ≠ .cleanup := by simpa using hskip
      rw [Agenda.shorten_entries hphase, List.nil_append, ih]
    · next hrun =>
      -- either nothing is cut yet, or this is the cleanup, which nothing cuts
      have hkeep : Agenda.shorten cut (phase.entries (c.steps phase)) =
          phase.entries (c.steps phase) := by
        cases cut with
        | false => rfl
        | true =>
          obtain rfl : phase = .cleanup := by simpa using hrun
          exact Agenda.shorten_cleanup true _
      rw [hkeep, runAgenda_entries]
      congr 1
      funext e
      rw [ih, Agenda.shorten_shorten]

theorem runCase_eq [Pattern.Engine] [Url.Names] (env : Environment) (c : TestCase) :
    runCase env c = (runAgenda env c.agenda .start).bind fun p => .done (p.result c) := by
  rw [runCase, runPhases_eq_runAgenda, Agenda.shorten_false, TestCase.agenda]

end RestCase
