/-
# RestCase.Proofs.Run.Orders — suites in any order

Whatever order the tasks of a suite take their steps in, the results stand in the order of the
cases, and each is the one that its case has alone; only a task that died has the result of a case
that could not run (`InOrder`).  So with no dead task a suite on many workers has the results of the
suite whose cases run one after the other (`result?_sequentially_iff`).  The suite that lets one
task after another take all its steps is one of these orders (`goes_tasks`).  `inAnyOrder` says all
of this, on any number of workers and in any order.

Boundary, at both ends of the number of workers.  On one worker there are no tasks, and a case that
breaks down takes the whole suite with it (`exists_suite_without_results`).  With more workers than
there can be no task is ever made (`run_of_maxWorkers_lt`, `exists_tasks_without_results`).
-/
import Mathlib.Data.List.Forall2
import Mathlib.Logic.Relation
import RestCase.Proofs.Decoding.Records
import RestCase.Proofs.Run.Returning
import RestCase.Proofs.Run.Turns

namespace RestCase

/-! ## One case after the other -/

namespace Suite

/-- **Cases that run one after the other** (`Suite.sequentially`) have the results that they have
alone, and give none if one of them has none. -/
theorem result?_sequentially_iff [Pattern.Engine] [Url.Names] {env : Environment}
    {reply : Request → Reply} {cases : List TestCase} {results : List CaseResult} :
    (sequentially env cases).result? reply = some results ↔
      List.Forall₂ (fun c r => (runCase env c).result? reply = some r) cases results := by
  induction cases generalizing results with
  | nil =>
    constructor
    · intro h
      obtain rfl := Option.some.inj h
      exact .nil
    · intro h
      cases h
      rfl
  | cons c cases ih =>
    rw [sequentially, Process.result?_bind, Option.bind_eq_some_iff]
    constructor
    · rintro ⟨r, hr, h⟩
      rw [Process.result?_bind, Option.bind_eq_some_iff] at h
      obtain ⟨rest, hrest, h⟩ := h
      obtain rfl := Option.some.inj h
      exact .cons hr (ih.1 hrest)
    · intro h
      cases h with
      | @cons _ r _ rest hr hrest =>
        refine ⟨r, hr, ?_⟩
        rw [Process.result?_bind, ih.2 hrest]
        rfl

end Suite

/-! ## Orders of steps -/

namespace Pool

/-- The steps of the tasks (`Pool.Step`) can lead from one pool to another. -/
def Reaches (client : Client) (workers : Nat) : Pool → Pool → Prop :=
  Relation.ReflTransGen (Step client workers)

section Reachable

variable {env : Environment} {client : Client} {workers : Nat} {cases : List TestCase} {p q : Pool}

theorem Goes.reaches (h : Goes client workers p q) : Reaches client workers p q :=
  Relation.ReflTransGen.mono (fun _ _ => Step.turn) p q h

/-- In whatever order steps were taken, every task is on its way. -/
theorem Sound.reaches [Pattern.Engine] [Url.Names] (hclient : client.Memoryless)
    (h : Sound env client.replyTo cases p)
    (hpq : Reaches client workers p q) : Sound env client.replyTo cases q := by
  induction hpq with
  | refl => exact h
  | tail _ hstep ih => exact ih.step hclient hstep

end Reachable

/-! ## One task after the other -/

section OneByOne

variable {env : Environment} {client : Client} {workers : Nat}

/-- A running task can go on to its end without any other. -/
theorem goes_ended (client : Client) (workers : Nat) (rest : Process (Nat × CaseResult))
    {p : Pool} {i : Nat} (h : p.tasks[i]? = some (.running rest)) :
    Goes client workers p
      ⟨p.tasks.set i (.ended (rest.play client p.journal).1), p.slots,
        (rest.play client p.journal).2⟩ := by
  -- the pool stays arbitrary: each request or pause changes the task and the journal
  induction rest generalizing p with
  | done found => exact .single (.act h (.finish found p.journal))
  | broken => exact .single (.act h (.breakDown p.journal))
  | nap time rest ih =>
    refine .step (.act h (.nap time rest p.journal)) ?_
    have hlt : i < p.tasks.length := (List.getElem?_eq_some_iff.1 h).1
    have hrest := ih (p := { p.setTask i (.running rest) with
      journal := { p.journal with naps := p.journal.naps ++ [time] } }) (List.getElem?_set_self hlt)
    rwa [setTask, List.set_set] at hrest
  | send r next ih =>
    refine .step (.act h (.send r next p.journal)) ?_
    have hlt : i < p.tasks.length := (List.getElem?_eq_some_iff.1 h).1
    have hrest := ih (client (p.journal.requests ++ [r]))
      (p := { p.setTask i (.running (next (client (p.journal.requests ++ [r])))) with
        journal := { p.journal with requests := p.journal.requests ++ [r] } })
      (List.getElem?_set_self hlt)
    rwa [setTask, List.set_set] at hrest

/-- A waiting task for which there is a permit can take all its steps and be collected. -/
theorem goes_joined {body : Process (Nat × CaseResult)} {p : Pool} {i : Nat}
    (h : p.tasks[i]? = some (.waiting body)) (hfree : p.busy < workers) :
    Goes client workers p
      ⟨p.tasks.set i (.joined (body.play client p.journal).1),
        filled p.slots (body.play client p.journal).1, (body.play client p.journal).2⟩ := by
  have hlt : i < p.tasks.length := (List.getElem?_eq_some_iff.1 h).1
  have hended := goes_ended client workers body (p := p.setTask i (.running body))
    (List.getElem?_set_self hlt)
  rw [setTask, List.set_set] at hended
  refine .step (.enter h hfree) (hended.tail ?_)
  have hjoin : Turn client workers
      ⟨p.tasks.set i (.ended (body.play client p.journal).1), p.slots,
        (body.play client p.journal).2⟩ _ :=
    .join (List.getElem?_set_self hlt)
  rwa [setTask, List.set_set] at hjoin

/-- The task of a case (`taskBody`) ends as the case does, and does the same. -/
theorem play_taskBody [Pattern.Engine] [Url.Names] (env : Environment) (client : Client)
    (place : Nat) (c : TestCase) (j : Journal) :
    (taskBody env place c).play client j =
      (((runCase env c).play client j).1.map (Prod.mk place),
        ((runCase env c).play client j).2) := by
  rw [taskBody, Process.play_bind]
  rcases (runCase env c).play client j with ⟨_ | r, j'⟩ <;> rfl

theorem countP_isRunning_of_joined {tasks : List Stage} (h : ∀ t ∈ tasks, t.isJoined = true) :
    tasks.countP Stage.isRunning = 0 := by
  rw [List.countP_eq_zero]
  intro t ht hrunning
  have hjoined := h t ht
  cases t with
  | running rest => cases hjoined
  | waiting body => cases hrunning
  | ended found => cases hrunning
  | joined found => cases hrunning

theorem countP_isRunning_spawned [Pattern.Engine] [Url.Names] (env : Environment) (place : Nat)
    (cases : List TestCase) :
    (spawned env place cases).countP Stage.isRunning = 0 := by
  induction cases generalizing place with
  | nil => rfl
  | cons c cases ih => exact ih (place + 1)

theorem filled_append (front back : List (Option CaseResult)) (o : Option CaseResult) :
    filled (front ++ none :: back) (o.map (Prod.mk front.length)) = front ++ o :: back := by
  cases o with
  | none => rfl
  | some r => simp [filled]

/-- Behind tasks that were collected, the next one can take all its steps and be collected. -/
theorem goes_first [Pattern.Engine] [Url.Names] (env : Environment) (hworkers : 0 < workers)
    {front : List Stage} {slots : List (Option CaseResult)} (hlength : front.length = slots.length)
    (hfront : ∀ t ∈ front, t.isJoined = true) (c : TestCase) (cases : List TestCase)
    (j : Journal) :
    Goes client workers
      ⟨front ++ spawned env front.length (c :: cases),
        slots ++ List.replicate (cases.length + 1) none, j⟩
      ⟨front ++ .joined (((runCase env c).play client j).1.map (Prod.mk front.length)) ::
          spawned env (front.length + 1) cases,
        slots ++ ((runCase env c).play client j).1 :: List.replicate cases.length none,
        ((runCase env c).play client j).2⟩ := by
  have hfirst : (front ++ spawned env front.length (c :: cases))[front.length]? =
      some (.waiting (taskBody env front.length c)) := by
    rw [List.getElem?_append_right (Nat.le_refl _), Nat.sub_self]
    rfl
  -- all tasks before it were collected and all tasks after it wait, so every permit is free
  have hidle : (front ++ spawned env front.length (c :: cases)).countP Stage.isRunning = 0 := by
    rw [List.countP_append, countP_isRunning_of_joined hfront, countP_isRunning_spawned]
  have hfree : (front ++ spawned env front.length (c :: cases)).countP Stage.isRunning <
      workers := by
    rw [hidle]
    exact hworkers
  have hjoined : Goes client workers
      ⟨front ++ spawned env front.length (c :: cases),
        slots ++ List.replicate (cases.length + 1) none, j⟩ _ := goes_joined hfirst hfree
  have htasks : ∀ t, (front ++ spawned env front.length (c :: cases)).set front.length t =
      front ++ t :: spawned env (front.length + 1) cases := by
    intro t
    simp [spawned]
  have hslots : ∀ o : Option CaseResult,
      filled (slots ++ List.replicate (cases.length + 1) none) (o.map (Prod.mk front.length)) =
        slots ++ o :: List.replicate cases.length none := by
    intro o
    rw [hlength, List.replicate_succ, filled_append]
  rw [play_taskBody, htasks, hslots] at hjoined
  exact hjoined

/-- **Tasks can take their steps one task after the other**, behind tasks that were collected;
they come to the results and the journal of `Suite.tasks`. -/
theorem goes_tasks [Pattern.Engine] [Url.Names] (hworkers : 0 < workers) (cases : List TestCase)
    {front : List Stage} {slots : List (Option CaseResult)} (hlength : front.length = slots.length)
    (hfront : ∀ t ∈ front, t.isJoined = true) (j : Journal) :
    ∃ stages found,
      Goes client workers
        ⟨front ++ spawned env front.length cases, slots ++ List.replicate cases.length none, j⟩
        ⟨front ++ stages, slots ++ found, (Suite.tasks env client cases j).2⟩ ∧
      (∀ t ∈ stages, t.isJoined = true) ∧
      List.zipWith Suite.taskResult cases found = (Suite.tasks env client cases j).1 := by
  induction cases generalizing front slots j with
  | nil => exact ⟨[], [], .refl, by simp, rfl⟩
  | cons c cases ih =>
    -- the first of the tasks has the pool to itself, and the rest begins behind it
    have hfirst : Goes client workers _ _ :=
      goes_first env hworkers hlength hfront c cases j
    rcases hplay : (runCase env c).play client j with ⟨o, j₁⟩
    rw [hplay] at hfirst
    have hlength' : (front ++ [Stage.joined (o.map (Prod.mk front.length))]).length =
        (slots ++ [o]).length := by simp [hlength]
    have hfront' : ∀ t ∈ front ++ [Stage.joined (o.map (Prod.mk front.length))],
        t.isJoined = true := by
      intro t ht
      rcases List.mem_append.1 ht with ht | ht
      · exact hfront t ht
      · obtain rfl := List.mem_singleton.1 ht
        rfl
    obtain ⟨stages, found, hrest, hstages, hfound⟩ := ih hlength' hfront' j₁
    rw [List.length_append, ← List.append_cons, ← List.append_cons, ← List.append_cons,
      ← List.append_cons] at hrest
    refine ⟨.joined (o.map (Prod.mk front.length)) :: stages, o :: found, ?_, ?_, ?_⟩
    · rw [Suite.tasks, hplay]
      exact hfirst.trans hrest
    · intro t ht
      rcases List.mem_cons.1 ht with rfl | ht
      · rfl
      · exact hstages t ht
    · rw [Suite.tasks, hplay]
      exact congrArg _ hfound

end OneByOne

end Pool

/-! ## Results in the order of the cases -/

namespace Suite

/-- Results in the order of the cases: at the place of a task that died (`Pool.Died`) the result
of a case that could not run, and at any other place the result that the case has alone
(`Process.result?`), whatever was sent before it.  If no task died, these are the results of the
cases one after the other. -/
structure InOrder [Pattern.Engine] [Url.Names] (env : Environment) (client : Client)
    (cases : List TestCase) (died : Nat → Prop) (results : List CaseResult) : Prop where
  length_eq : results.length = cases.length
  entry : ∀ (i : Nat) (c : TestCase), cases[i]? = some c → ∃ r, results[i]? = some r ∧
    (¬ died i → ∀ j, ((runCase env c).play client j).1 = some r) ∧
    (died i → r = .aborted c incompleteMessage)
  sequential : (∀ i, ¬ died i) → ∀ j, ((sequentially env cases).play client j).1 = some results

section Orders

variable [Pattern.Engine] [Url.Names] {env : Environment} {client : Client} {cases : List TestCase}
    {results : List CaseResult}

/-- The results of cases that run one after the other are in order. -/
theorem inOrder_of_sequentially (hclient : client.Memoryless) {j : Journal}
    (h : ((sequentially env cases).play client j).1 = some results) :
    InOrder env client cases (fun _ => False) results := by
  rw [Process.play_fst_eq hclient] at h
  obtain ⟨hlength, hentry⟩ := List.forall₂_iff_get.1 (result?_sequentially_iff.1 h)
  refine ⟨hlength.symm, ?_, ?_⟩
  · intro i c hc
    obtain ⟨hlt, rfl⟩ := List.getElem?_eq_some_iff.1 hc
    have hlt' : i < results.length := hlength ▸ hlt
    refine ⟨results[i], List.getElem?_eq_getElem hlt', ?_, False.elim⟩
    intro _ j'
    rw [Process.play_fst_eq hclient]
    exact hentry i hlt hlt'
  · intro _ j'
    rw [Process.play_fst_eq hclient]
    exact h

/-- The results of a pool that is `Settled` are in order. -/
theorem inOrder_of_settled (hclient : client.Memoryless) {p : Pool}
    (h : p.Sound env client.replyTo cases) (hsettled : p.Settled) :
    InOrder env client cases p.Died (p.results cases) := by
  refine ⟨h.length_results, ?_, ?_⟩
  · intro i c hc
    obtain ⟨r, hr, hlive, hdied⟩ := h.results_entry hsettled hc
    refine ⟨r, hr, ?_, hdied⟩
    intro hi j
    rw [Process.play_fst_eq hclient]
    exact hlive hi
  · intro hnone j
    rw [Process.play_fst_eq hclient, result?_sequentially_iff, List.forall₂_iff_get]
    refine ⟨h.length_results.symm, ?_⟩
    intro i hi hi'
    obtain ⟨r, hr, hlive, -⟩ := h.results_entry hsettled (List.getElem?_eq_getElem hi)
    obtain rfl := Option.some.inj ((List.getElem?_eq_getElem hi').symm.trans hr)
    exact hlive (hnone i)

/-- Cases that run one after the other give results exactly when each of them does. -/
theorem exists_sequentially_iff (hclient : client.Memoryless) {j : Journal} :
    (∃ results, ((sequentially env cases).play client j).1 = some results) ↔
      ∀ c ∈ cases, ∃ r, ((runCase env c).play client .empty).1 = some r := by
  simp only [Process.play_fst_eq hclient, result?_sequentially_iff]
  exact Decoding.exists_forall₂_iff

/-- The suite that runs one task after the other takes one of the orders of steps. -/
theorem exists_goes_tasks (env : Environment) (client : Client) {workers : Nat}
    (hworkers : 0 < workers) (cases : List TestCase) :
    ∃ p, Pool.Goes client workers (.start env cases) p ∧ p.Settled ∧
      tasks env client cases .empty = (p.results cases, p.journal) := by
  have hnone : ∀ t ∈ ([] : List Stage), t.isJoined = true := by simp
  obtain ⟨stages, found, hgoes, hsettled, hfound⟩ :=
    Pool.goes_tasks hworkers cases (Eq.refl ([] : List (Option CaseResult)).length) hnone .empty
  exact ⟨_, hgoes, hsettled, Prod.ext hfound.symm rfl⟩

/-- **The results of a suite stand in the order of its cases** (`InOrder`), each as its case has
it alone, with every client that answers by the last request alone (`Memoryless`).  On one worker,
where there are no tasks, the cases run one after the other: the suite has results exactly when
each of its cases has one.  On more workers no order of steps (`Pool.Step`) goes on forever, and
none stops before every task was collected (`Settled`); in whatever order that was, the results
are those of the cases, and those of cases that could not run at the places of tasks that
died.  The suite that runs one task after the other is one of them. -/
theorem inAnyOrder (env : Environment) {client : Client} (hclient : client.Memoryless)
    (workers : Nat) (cases : List TestCase) :
    (workers ≤ 1 →
      run env client workers cases = (sequentially env cases).play client .empty ∧
      ((∃ results, (run env client workers cases).1 = some results) ↔
        ∀ c ∈ cases, ∃ r, ((runCase env c).play client .empty).1 = some r) ∧
      ∀ results, (run env client workers cases).1 = some results →
        InOrder env client cases (fun _ => False) results) ∧
    (1 < workers → workers ≤ maxWorkers →
      (¬ ∃ order : Nat → Pool, order 0 = .start env cases ∧
        ∀ n, Pool.Step client workers (order n) (order (n + 1))) ∧
      (∀ p, Pool.Reaches client workers (.start env cases) p →
        p.Settled ∨ ∃ q, Pool.Turn client workers p q) ∧
      (∀ p, Pool.Reaches client workers (.start env cases) p → p.Settled →
        InOrder env client cases p.Died (p.results cases)) ∧
      ∃ p, Pool.Reaches client workers (.start env cases) p ∧ p.Settled ∧
        run env client workers cases = (some (p.results cases), p.journal)) := by
  refine ⟨?_, ?_⟩
  · intro hone
    have hrun : run env client workers cases = (sequentially env cases).play client .empty := by
      rw [run, if_pos hone]
    rw [hrun]
    exact ⟨rfl, exists_sequentially_iff hclient, fun _ => inOrder_of_sequentially hclient⟩
  · intro hmany hmax
    have hworkers : 0 < workers := Nat.lt_of_succ_lt hmany
    have hstart := Pool.sound_start env client.replyTo cases
    refine ⟨?_, ?_, ?_, ?_⟩
    · rintro ⟨order, -, horder⟩
      exact Pool.not_exists_endless hclient ⟨order, horder⟩
    · intro p _
      by_cases hsettled : p.Settled
      · exact Or.inl hsettled
      · exact Or.inr (Pool.exists_turn client hworkers hsettled)
    · intro p hp hsettled
      exact inOrder_of_settled hclient (hstart.reaches hclient hp) hsettled
    · obtain ⟨p, hp, hsettled, htasks⟩ := exists_goes_tasks env client hworkers cases
      refine ⟨p, hp.reaches, hsettled, ?_⟩
      rw [run, if_neg (Nat.not_le.2 hmany), if_neg (Nat.not_lt.2 hmax), htasks]

end Orders

namespace OneDies

/-- A suite whose first case breaks down. -/
def cases : List TestCase :=
  [ZeroStride.case, ⟨"next", none, [], [], [.plain "get" (.plain .get "x://h")], []⟩]

end OneDies

/-- On two workers the second case passes, although the task of the first one dies. -/
theorem inAnyOrder_oneDies :
    ZeroStride.client.Memoryless ∧ (1 < 2 ∧ 2 ≤ maxWorkers) ∧
    ((run ⟨.standard, .empty⟩ ZeroStride.client 2 OneDies.cases).1.map fun l =>
        l.map (·.passed)) = some [false, true] ∧
    ∃ p, Pool.Reaches ZeroStride.client 2 (.start ⟨.standard, .empty⟩ OneDies.cases) p ∧
      p.Settled ∧
      InOrder ⟨.standard, .empty⟩ ZeroStride.client OneDies.cases p.Died
        (p.results OneDies.cases) ∧
      run ⟨.standard, .empty⟩ ZeroStride.client 2 OneDies.cases =
        (some (p.results OneDies.cases), p.journal) := by
  have hclient : ZeroStride.client.Memoryless := fun _ _ _ => rfl
  have hmax : 2 ≤ maxWorkers := by decide
  have hpassed : ((run ⟨.standard, .empty⟩ ZeroStride.client 2 OneDies.cases).1.map fun l =>
      l.map (·.passed)) = some [false, true] := by decide +kernel
  obtain ⟨-, -, hresults, p, hp, hsettled, hrun⟩ :=
    (inAnyOrder ⟨.standard, .empty⟩ hclient 2 OneDies.cases).2 (by decide) hmax
  exact ⟨hclient, ⟨by decide, hmax⟩, hpassed, p, hp, hsettled, hresults p hp hsettled, hrun⟩

/-- **On one worker a suite need not have results**: there is no task that could die for the case,
so that the case takes the suite with it (`Suite.sequentially`). -/
theorem exists_suite_without_results :
    ¬ ∀ (env : Environment) (client : Client) (workers : Nat) (cases : List TestCase),
      client.Memoryless → ∃ results, (run env client workers cases).1 = some results ∧
        results.length = cases.length := by
  intro h
  have hclient : ZeroStride.client.Memoryless := fun _ _ _ => rfl
  obtain ⟨results, hresults, -⟩ := h ⟨.standard, .empty⟩ ZeroStride.client 1 OneDies.cases hclient
  have hnone : ((run ⟨.standard, .empty⟩ ZeroStride.client 1 OneDies.cases).1).isNone = true := by
    decide +kernel
  rw [hresults] at hnone
  cases hnone

/-- With more than `maxWorkers` no case begins. -/
theorem run_of_maxWorkers_lt [Pattern.Engine] [Url.Names] (env : Environment) (client : Client)
    {workers : Nat} (h : maxWorkers < workers) (cases : List TestCase) :
    run env client workers cases = (none, .empty) := by
  have htwo : 2 ≤ maxWorkers := by decide
  rw [run, if_neg (by omega), if_pos h]

/-- **With too many workers a suite has no results either**, though there is a task for every case:
the cases that have results on two workers have none on more than `maxWorkers`. -/
theorem exists_tasks_without_results :
    ¬ ∀ (env : Environment) (client : Client) (workers : Nat) (cases : List TestCase),
      client.Memoryless → 2 ≤ workers → ∃ results, (run env client workers cases).1 = some results ∧
        results.length = cases.length := by
  intro h
  have hclient : ZeroStride.client.Memoryless := fun _ _ _ => rfl
  obtain ⟨results, hresults, -⟩ := h ⟨.standard, .empty⟩ ZeroStride.client (maxWorkers + 1)
    OneDies.cases hclient (by decide)
  rw [run_of_maxWorkers_lt _ _ (Nat.lt_succ_self _)] at hresults
  cases hresults

end Suite

end RestCase
