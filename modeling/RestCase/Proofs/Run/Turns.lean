/-
# RestCase.Proofs.Run.Turns — what every order of turns preserves

With a client that answers by the last request alone, the tasks of a pool share nothing that could
change what any of them comes to.  So a task is at every stage on its way to the result that it
would have alone (`Stage.Sound`), and a slot is filled with that result once the task was collected,
or stays empty for good.  One step keeps this, whatever it is (`Pool.Sound.step`).  A step also
brings some task nearer to its end (`Pool.rank_lt_of_step`), and until every task was collected
there is a turn to take (`Pool.exists_turn`); so a pool never rests before it is settled, and
settles.

`Pool.Sound.results_entry` says what stands in the results then.
-/
import Mathlib.Algebra.Ring.Nat
import RestCase.Proofs.Process.Memoryless
import RestCase.Proofs.Run.Places

namespace RestCase

/-! ## Bodies of tasks -/

theorem result?_taskBody [Pattern.Engine] [Url.Names] (reply : Request → Reply) (env : Environment)
    (place : Nat) (c : TestCase) :
    (taskBody env place c).result? reply = ((runCase env c).result? reply).map (Prod.mk place) := by
  rw [taskBody, Process.result?_bind]
  cases (runCase env c).result? reply <;> rfl

/-- The number of requests and pauses of a process when every request has one answer. -/
def Process.steps {α : Type} (reply : Request → Reply) : Process α → Nat
  | .done _ | .broken => 0
  | .nap _ p => p.steps reply + 1
  | .send r k => (k (reply r)).steps reply + 1

/-! ## One task -/

namespace Stage

/-- The task comes to `own`, or it dies; and nothing is in its slot before it is collected. -/
def Sound (reply : Request → Reply) (own : Option (Nat × CaseResult)) :
    Stage → Option CaseResult → Prop
  | .waiting body, slot => body.result? reply = own ∧ slot = none
  | .running rest, slot => rest.result? reply = own ∧ slot = none
  | .ended found, slot => (found = none ∨ found = own) ∧ slot = none
  | .joined found, slot => (found = none ∨ found = own) ∧ slot = found.map Prod.snd

/-- How far a task is from having been collected. -/
def rank (reply : Request → Reply) : Stage → Nat
  | .waiting body => body.steps reply + 3
  | .running rest => rest.steps reply + 2
  | .ended _ => 1
  | .joined _ => 0

section Acting

variable {client : Client} {t t' : Stage} {j j' : Journal}

/-- A running task stays on its way: the answers it gets are the ones that it would get alone. -/
theorem Acts.sound (hclient : client.Memoryless) (h : t.Acts client j t' j')
    {own : Option (Nat × CaseResult)} {slot : Option CaseResult}
    (hs : t.Sound client.replyTo own slot) : t'.Sound client.replyTo own slot := by
  cases h with
  | nap time rest => exact hs
  | send r next =>
    show (next (client (j.requests ++ [r]))).result? client.replyTo = own ∧ slot = none
    rw [hclient.reply_eq]
    exact hs
  | finish found =>
    obtain ⟨rfl, hslot⟩ := hs
    exact ⟨Or.inr rfl, hslot⟩
  | breakDown =>
    obtain ⟨-, hslot⟩ := hs
    exact ⟨Or.inl rfl, hslot⟩

theorem Acts.rank_lt (hclient : client.Memoryless) (h : t.Acts client j t' j') :
    t'.rank client.replyTo < t.rank client.replyTo := by
  cases h with
  | nap time rest => exact Nat.lt_succ_self _
  | send r next =>
    show (next (client (j.requests ++ [r]))).steps client.replyTo + 2 < _
    rw [hclient.reply_eq]
    exact Nat.lt_succ_self _
  | finish found =>
    show 1 < 0 + 2
    omega
  | breakDown =>
    show 1 < 0 + 2
    omega

/-- A running task can always go on (`Stage.Acts`). -/
theorem exists_acts (client : Client) (j : Journal) (rest : Process (Nat × CaseResult)) :
    ∃ t' j', (running rest).Acts client j t' j' := by
  cases rest with
  | done found => exact ⟨_, _, .finish found j⟩
  | broken => exact ⟨_, _, .breakDown j⟩
  | nap time rest => exact ⟨_, _, .nap time rest j⟩
  | send r next => exact ⟨_, _, .send r next j⟩

end Acting

end Stage

namespace Pool

/-! ## What the steps keep -/

/-- Every task of the pool is on its way to the result of its case. -/
abbrev Sound [Pattern.Engine] [Url.Names] (env : Environment) (reply : Request → Reply)
    (cases : List TestCase) (p : Pool) :
    Prop :=
  p.Each (fun i c t slot => t.Sound reply ((taskBody env i c).result? reply) slot) cases

section Soundness

variable [Pattern.Engine] [Url.Names] {env : Environment} {client : Client} {cases : List TestCase}
    {p q : Pool}

theorem sound_start (env : Environment) (reply : Request → Reply) (cases : List TestCase) :
    Sound env reply cases (start env cases) :=
  each_start fun _ _ => ⟨rfl, rfl⟩

/-- Every turn of a task keeps it on its way. -/
theorem kept_sound (env : Environment) (hclient : client.Memoryless) :
    Kept client fun i c t slot =>
      t.Sound client.replyTo ((taskBody env i c).result? client.replyTo) slot where
  enter hs := hs
  act hacts hs := hacts.sound hclient hs
  ended := by
    rintro i c found slot ⟨hfound, rfl⟩
    refine ⟨?_, rfl, hfound, rfl⟩
    rintro a rfl
    rcases hfound with hown | hown
    · cases hown
    · rw [result?_taskBody] at hown
      obtain ⟨r, -, rfl⟩ := Option.map_eq_some_iff.1 hown.symm
      rfl

/-- **One step keeps every task on its way** (`Pool.Step`), whichever task it is that goes on,
ends, is collected or dies. -/
theorem Sound.step (hclient : client.Memoryless) {workers : Nat}
    (h : Sound env client.replyTo cases p) (hstep : Step client workers p q) :
    Sound env client.replyTo cases q := by
  cases hstep with
  | turn hturn => exact h.turn (kept_sound env hclient) hturn
  | @die i t ht halive =>
    refine h.changeTask ht ?_ p.journal
    intro c slot hs
    cases t with
    | waiting body => exact ⟨Or.inl rfl, hs.2⟩
    | running rest => exact ⟨Or.inl rfl, hs.2⟩
    | ended found => cases halive
    | joined found => cases halive

end Soundness

/-! ## Settling -/

section Settling

variable {client : Client} {workers : Nat} {p q : Pool}

/-- How far the tasks of a pool are from having been collected, all together. -/
def rank (reply : Request → Reply) (p : Pool) : Nat := (p.tasks.map (Stage.rank reply)).sum

theorem sum_map_set_lt {reply : Request → Reply} {tasks : List Stage} {i : Nat} {t t' : Stage}
    (ht : tasks[i]? = some t) (h : t'.rank reply < t.rank reply) :
    ((tasks.set i t').map (Stage.rank reply)).sum < (tasks.map (Stage.rank reply)).sum := by
  induction tasks generalizing i with
  | nil => cases ht
  | cons u tasks ih =>
    cases i with
    | zero =>
      obtain rfl := Option.some.inj ht
      simp only [List.set_cons_zero, List.map_cons, List.sum_cons]
      omega
    | succ i =>
      have hrest := ih ht
      simp only [List.set_cons_succ, List.map_cons, List.sum_cons]
      omega

/-- **A step brings a task nearer to its end**: the `rank` of the pool falls. -/
theorem rank_lt_of_step (hclient : client.Memoryless) (h : Step client workers p q) :
    q.rank client.replyTo < p.rank client.replyTo := by
  cases h with
  | turn hturn =>
    cases hturn with
    | enter ht _ => exact sum_map_set_lt ht (Nat.lt_succ_self _)
    | act ht hacts => exact sum_map_set_lt ht (hacts.rank_lt hclient)
    | join ht => exact sum_map_set_lt ht Nat.zero_lt_one
  | @die i t ht halive =>
    refine sum_map_set_lt ht ?_
    cases t with
    | waiting body =>
      show 1 < body.steps client.replyTo + 3
      omega
    | running rest =>
      show 1 < rest.steps client.replyTo + 2
      omega
    | ended found => cases halive
    | joined found => cases halive

/-- **No order of steps goes on forever**, by `rank_lt_of_step`. -/
theorem not_exists_endless (hclient : client.Memoryless) :
    ¬ ∃ order : Nat → Pool, ∀ n, Step client workers (order n) (order (n + 1)) := by
  rintro ⟨order, horder⟩
  have hbound : ∀ n, (order n).rank client.replyTo + n ≤ (order 0).rank client.replyTo := by
    intro n
    induction n with
    | zero => exact Nat.le_refl _
    | succ n ih =>
      have hlt := rank_lt_of_step hclient (horder n)
      omega
  have := hbound ((order 0).rank client.replyTo + 1)
  omega

/-- **Until every task was collected there is a turn to take** (`Pool.Turn`): a waiting task gets
a permit, or one of those that have the permits can go on. -/
theorem exists_turn (client : Client) (hworkers : 0 < workers) (h : ¬ p.Settled) :
    ∃ q, Turn client workers p q := by
  have hrunning : ∀ rest, .running rest ∈ p.tasks → ∃ q, Turn client workers p q := by
    intro rest hmem
    obtain ⟨i, hi⟩ := List.mem_iff_getElem?.1 hmem
    obtain ⟨t', j', hacts⟩ := Stage.exists_acts client p.journal rest
    exact ⟨_, .act hi hacts⟩
  obtain ⟨t, hmem, hjoined⟩ : ∃ t ∈ p.tasks, ¬ t.isJoined = true := by
    simpa [Settled] using h
  obtain ⟨i, hi⟩ := List.mem_iff_getElem?.1 hmem
  cases t with
  | joined found => exact absurd rfl hjoined
  | ended found => exact ⟨_, .join hi⟩
  | running rest => exact hrunning rest hmem
  | waiting body =>
    by_cases hfree : p.busy < workers
    · exact ⟨_, .enter hi hfree⟩
    · -- all permits are taken, and there is one at least
      have hbusy : 0 < p.tasks.countP Stage.isRunning := Nat.lt_of_lt_of_le hworkers (by
        rw [busy] at hfree
        omega)
      obtain ⟨u, hu, hrun⟩ := List.countP_pos_iff.1 hbusy
      cases u with
      | running rest => exact hrunning rest hu
      | waiting body => cases hrun
      | ended found => cases hrun
      | joined found => cases hrun

end Settling

/-! ## Results of a settled pool -/

section Results

variable [Pattern.Engine] [Url.Names] {env : Environment} {reply : Request → Reply}
    {cases : List TestCase} {p : Pool}

/-- **What stands in the results of a settled pool** (`Settled`): at the place of a task that
died, the result of a case that could not run, and at any other place the result of the case
there. -/
theorem Sound.results_entry (h : Sound env reply cases p) (hsettled : p.Settled) {i : Nat}
    {c : TestCase} (hc : cases[i]? = some c) :
    ∃ r, (p.results cases)[i]? = some r ∧
      (¬ p.Died i → (runCase env c).result? reply = some r) ∧
      (p.Died i → r = .aborted c incompleteMessage) := by
  obtain ⟨found, slot, ht, ⟨hfound, rfl⟩, hresult⟩ := Each.results_entry h hsettled hc
  refine ⟨_, hresult, ?_⟩
  -- a task that ended without a result has died, and one with a result has that of its case
  cases found with
  | none => exact ⟨fun hlive => absurd ht hlive, fun _ => rfl⟩
  | some a =>
    refine ⟨?_, ?_⟩
    · intro _
      rcases hfound with hfound | hfound
      · cases hfound
      · rw [result?_taskBody] at hfound
        obtain ⟨r, hr, rfl⟩ := Option.map_eq_some_iff.1 hfound.symm
        exact hr
    · intro hdied
      cases ht.symm.trans hdied

end Results

end Pool

end RestCase
