/-
# RestCase.Proofs.Run.Accounts — the accounts of a run

A result names for every step the number of its attempts, and that number accounts for everything
that the run did: the step sent one request so many times, it paused between them if it has an
interval, and nothing else was sent and no other pause was made.  The last response of the result is
the last one that came back in the whole run, the cleanup included.

The attempts of a step keep a balance, `Accounts`, which every further attempt adds to
(`Accounts.again`), so that a trial has accounts (`Trial.accounts`); the accounts of a run are those
of its episodes, one after the other (`exists_accounts`).
-/
import Mathlib.Algebra.Ring.Nat
import RestCase.Proofs.Run.History

namespace RestCase

/-! ## The last response among replies -/

/-- The last response among replies, if there is one. -/
def lastResponse? (l : List Reply) : Option Response := (l.filterMap Except.toOption).getLast?

theorem lastResponse?_append (l₁ l₂ : List Reply) :
    lastResponse? (l₁ ++ l₂) = (lastResponse? l₂).or (lastResponse? l₁) := by
  unfold lastResponse?
  rw [List.filterMap_append, List.getLast?_append]

theorem lastResponse?_eq_none_iff {l : List Reply} :
    lastResponse? l = none ↔ ∀ reply ∈ l, ∃ fault, reply = .error fault := by
  unfold lastResponse?
  rw [List.getLast?_eq_none_iff, List.filterMap_eq_nil_iff]
  refine forall₂_congr ?_
  intro reply _
  cases reply with
  | ok r => simp [Except.toOption]
  | error fault => simp [Except.toOption]

/-! ## Attempts -/

namespace Step

/-- The pauses of the attempts after the first `n`, up to the `m`-th one: the interval of the step
before each of them, and none before the very first attempt. -/
def pausesBetween (s : Step) (n m : Nat) : List Nat :=
  if 0 < s.retryInterval then List.replicate (m - max 1 n) s.retryInterval else []

theorem pausesBetween_self (s : Step) (n : Nat) : s.pausesBetween n n = [] := by
  have hnone : n - max 1 n = 0 := by omega
  simp [pausesBetween, hnone]

theorem pausesBetween_append (s : Step) {n m k : Nat} (hnm : n ≤ m) (hmk : m ≤ k) :
    s.pausesBetween n m ++ s.pausesBetween m k = s.pausesBetween n k := by
  have hsum : (m - max 1 n) + (k - max 1 m) = k - max 1 n := by omega
  unfold pausesBetween
  split
  · rw [List.replicate_append_replicate, hsum]
  · rfl

/-- An attempt makes the pause before it, which the very first one does not have. -/
theorem napsOf_tryEvents (s : Step) (request : Request) (n : Nat) (reply : Reply) :
    napsOf (s.tryEvents request (n + 1) reply) = s.pausesBetween n (n + 1) := by
  rw [tryEvents, napsOf_append]
  unfold pauseEvents RetryPolicy.pauseBefore? RetryPolicy.ofStep pausesBetween
  by_cases hi : 0 < s.retryInterval
  · cases n with
    | zero => simp [napsOf, Event.nap?, hi]
    | succ n => simp [napsOf, Event.nap?, hi]
  · simp [napsOf, Event.nap?, hi]

theorem requestsOf_tryEvents (s : Step) (request : Request) (n : Nat) (reply : Reply) :
    requestsOf (s.tryEvents request n reply) = [request] := by
  have hpause : requestsOf (s.pauseEvents n) = [] := by
    unfold pauseEvents
    cases (RetryPolicy.ofStep s).pauseBefore? n <;> rfl
  rw [tryEvents, requestsOf_append, hpause]
  rfl

theorem repliesOf_tryEvents (s : Step) (request : Request) (n : Nat) (reply : Reply) :
    repliesOf (s.tryEvents request n reply) = [reply] := by
  have hpause : repliesOf (s.pauseEvents n) = [] := by
    unfold pauseEvents
    cases (RetryPolicy.ofStep s).pauseBefore? n <;> rfl
  rw [tryEvents, repliesOf_append, hpause]
  rfl

/-- The balance of attempts of a step after the first `n`, when `last` is the last response so
far: the attempts that the outcome counts are those that sent the request and paused
(`pausesBetween`). -/
structure Accounts (s : Step) (request : Request) (n : Nat) (last : Option Response)
    (l : List Event) (a : Attempted) : Prop where
  le_attempts : n ≤ a.outcome.attempts
  requests_eq : requestsOf l = List.replicate (a.outcome.attempts - n) request
  naps_eq : napsOf l = s.pausesBetween n a.outcome.attempts
  lastResponse_eq : a.lastResponse = (lastResponse? (repliesOf l)).or last

/-- Without a further attempt there is nothing to account for. -/
theorem Accounts.nil {s : Step} {request : Request} {n : Nat} {last : Option Response}
    {a : Attempted} (hn : a.outcome.attempts = n) (hlast : a.lastResponse = last) :
    s.Accounts request n last [] a where
  le_attempts := Nat.le_of_eq hn.symm
  requests_eq := by
    rw [hn, Nat.sub_self]
    rfl
  naps_eq := by
    rw [hn, pausesBetween_self]
    rfl
  lastResponse_eq := hlast

/-- **One attempt** adds one request, the pause before it, and its response if it got one. -/
theorem Accounts.again {s : Step} {request : Request} {n : Nat} {last : Option Response}
    {reply : Reply} {l : List Event} {a : Attempted}
    (h : s.Accounts request (n + 1) (reply.toOption.or last) l a) :
    s.Accounts request n last (s.tryEvents request (n + 1) reply ++ l) a where
  le_attempts := Nat.le_of_succ_le h.le_attempts
  requests_eq := by
    -- this attempt is one more than the ones that follow it
    have hcount : a.outcome.attempts - n = (a.outcome.attempts - (n + 1)) + 1 := by
      have := h.le_attempts
      omega
    rw [requestsOf_append, requestsOf_tryEvents, h.requests_eq, hcount, List.replicate_succ]
    rfl
  naps_eq := by
    rw [napsOf_append, napsOf_tryEvents, h.naps_eq]
    exact s.pausesBetween_append (Nat.le_succ n) h.le_attempts
  lastResponse_eq := by
    have hone : lastResponse? [reply] = reply.toOption := by
      cases reply <;> rfl
    rw [h.lastResponse_eq, repliesOf_append, repliesOf_tryEvents, lastResponse?_append, hone,
      Option.or_assoc]

end Step

/-- **The attempts of a step account for what they did**: every `Trial` has the balance of
`Accounts`. -/
theorem Trial.accounts [Pattern.Engine] {s : Step} {request : Request} {ctx : Context}
    {left n : Nat}
    {failures : List String} {last : Option Response} {l : List Event} {a : Attempted}
    (h : Trial s request ctx left n failures last l (some a)) :
    s.Accounts request n last l a := by
  generalize ho : some a = o at h
  -- each constructor is an attempt before a balance that is known: an empty one, or that of `ih`
  induction h with
  | spent =>
    obtain rfl := Option.some.inj ho
    exact .nil rfl rfl
  | stalled => cases ho
  | @passed left n failures last r ctx' hp =>
    obtain rfl := Option.some.inj ho
    rw [← List.append_nil (s.tryEvents request (n + 1) (.ok r))]
    exact .again (.nil rfl rfl)
  | refused _ _ ih => exact .again (ih ho)
  | @lost n failures last fault =>
    obtain rfl := Option.some.inj ho
    rw [← List.append_nil (s.tryEvents request (n + 1) (.error fault))]
    exact .again (.nil rfl rfl)
  | unanswered _ _ ih => exact .again (ih ho)

/-! ## Episodes -/

namespace Episode

variable [Pattern.Engine] [Url.Names] {env : Environment}

/-- What the step sends by its record: its request, prepared once in the state in which the step
began (`RequestSpec.prepare`), as often as it has attempts. -/
def sent (e : Episode env) : List Request :=
  match e.step.request.prepare env.settings env.users e.before.context with
  | .ok request => List.replicate e.record.attempts request
  | .error _ => []

/-- The pauses of the step by its record: its interval, if that is not zero, between each two of
its attempts (`pausesBetween`). -/
def pauses (e : Episode env) : List Nat :=
  if 0 < e.step.retryInterval then
    List.replicate (e.record.attempts - 1) e.step.retryInterval
  else []

theorem pauses_eq (e : Episode env) : e.pauses = e.step.pausesBetween 0 e.record.attempts := by
  unfold pauses Step.pausesBetween
  rfl

/-- **A step accounts for itself**: it sent its request once for every attempt (`sent`) and paused
between them (`pauses`), and it left the last response that it got, or the one from before. -/
theorem accounts (e : Episode env) :
    requestsOf e.events = e.sent ∧ e.sent.length = e.record.attempts ∧
      napsOf e.events = e.pauses ∧
      e.after.lastResponse = (lastResponse? (repliesOf e.events)).or e.before.lastResponse := by
  rw [pauses_eq]
  obtain ⟨phase, s, p, l, a, h⟩ := e
  unfold sent
  cases h with
  | skipped hw =>
    -- the request of a step that is skipped may be sound, but it is not sent
    have hnone : s.pausesBetween 0 0 = [] := s.pausesBetween_self 0
    refine ⟨?_, ?_, hnone.symm, rfl⟩
    · cases s.request.prepare env.settings env.users p.context <;> rfl
    · cases s.request.prepare env.settings env.users p.context <;> rfl
  | unprepared hw hp =>
    have hnone : s.pausesBetween 0 0 = [] := s.pausesBetween_self 0
    simp only [hp]
    exact ⟨rfl, rfl, hnone.symm, rfl⟩
  | tried hw hp ht =>
    have haccounts := ht.accounts
    simp only [hp]
    exact ⟨haccounts.requests_eq, List.length_replicate, haccounts.naps_eq,
      haccounts.lastResponse_eq⟩

theorem attempts_of_skipped {e : Episode env} (h : e.record.status = .skipped) :
    e.record.attempts = 0 := by
  obtain ⟨phase, s, p, l, a, hc⟩ := e
  change a.outcome.status = .skipped at h
  show a.outcome.attempts = 0
  cases ho : a.outcome with
  | skipped => rfl
  | passed n => rw [ho] at h; cases h
  | failed n failures => rw [ho] at h; cases h
  | errored n error => rw [ho] at h; cases h

end Episode

section Episodes

variable [Pattern.Engine] [Url.Names] {env : Environment}

theorem requestsOf_eventsOf (es : List (Episode env)) :
    requestsOf (eventsOf es) = es.flatMap (·.sent) := by
  induction es with
  | nil => rfl
  | cons e es ih =>
    rw [eventsOf_cons, requestsOf_append, e.accounts.1, ih, List.flatMap_cons]

theorem napsOf_eventsOf (es : List (Episode env)) :
    napsOf (eventsOf es) = es.flatMap (·.pauses) := by
  induction es with
  | nil => rfl
  | cons e es ih =>
    rw [eventsOf_cons, napsOf_append, e.accounts.2.2.1, ih, List.flatMap_cons]

theorem length_flatMap_sent (es : List (Episode env)) :
    (es.flatMap (·.sent)).length = ((es.map (·.record)).map (·.attempts)).sum := by
  induction es with
  | nil => rfl
  | cons e es ih =>
    rw [List.flatMap_cons, List.length_append, ih, e.accounts.2.1]
    rfl

/-- What comes back last along a run is its last response, or the one from before. -/
theorem Advances.lastResponse_eq {a b : Agenda} {p q : Progress} {es : List (Episode env)}
    (h : Advances env a p es b q) :
    q.lastResponse = (lastResponse? (repliesOf (eventsOf es))).or p.lastResponse := by
  induction h with
  | refl a p => rfl
  | @step e r b es q _ ih =>
    rw [ih, e.accounts.2.2.2, eventsOf_cons, repliesOf_append, lastResponse?_append,
      Option.or_assoc]

end Episodes

namespace History

variable [Pattern.Engine] [Url.Names] {env : Environment} {client : Client} {c : TestCase}
    {j j' : Journal} {r : CaseResult}

theorem naps_eq (h : History env client c j r j') :
    j'.naps = j.naps ++ napsOf (eventsOf h.episodes) := by
  obtain ⟨es, q, -, -, rfl, -⟩ := h
  exact Journal.naps_after j _

/-- The last response of a result is the last one that the client gave in the run
(`lastResponse?`). -/
theorem lastResponse_eq (h : History env client c j r j') :
    r.lastResponse =
      lastResponse? (client.replies j.requests (requestsOf (eventsOf h.episodes))) := by
  obtain ⟨es, q, hes, hanswered, -, rfl⟩ := h
  rw [← hanswered.repliesOf_eq]
  exact hes.lastResponse_eq.trans Option.or_none

end History

/-! ## Runs -/

/-- **A result accounts for every request and every pause.**  In a run that returns, each executed
step sent the request that it had prepared, as often as it has attempts, and paused for its
interval between them (`Episode.sent`, `Episode.pauses`); these requests and pauses, step by step,
are all that the run sent and all that it paused.  A skipped step has no attempts.  The last
response is the last one that the client gave to any of the requests (`Client.replies`), and there
is none exactly when the client answered none of them. -/
theorem exists_accounts [Pattern.Engine] [Url.Names] {env : Environment} {client : Client}
    {c : TestCase} {j j' : Journal}
    {r : CaseResult} (h : (runCase env c).play client j = (some r, j')) :
    ∃ history : History env client c j r j',
      r.executed = history.episodes.map (·.record) ∧
      j'.requests = j.requests ++ history.episodes.flatMap (·.sent) ∧
      j'.requests.length = j.requests.length + (r.executed.map (·.attempts)).sum ∧
      j'.naps = j.naps ++ history.episodes.flatMap (·.pauses) ∧
      (∀ x ∈ r.executed, x.status = .skipped → x.attempts = 0) ∧
      r.lastResponse =
        lastResponse? (client.replies j.requests (history.episodes.flatMap (·.sent))) ∧
      (r.lastResponse = none ↔
        ∀ reply ∈ client.replies j.requests (history.episodes.flatMap (·.sent)),
          ∃ fault, reply = .error fault) := by
  obtain ⟨history⟩ := play_runCase_iff.1 h
  have hrequests : j'.requests = j.requests ++ history.episodes.flatMap (·.sent) := by
    rw [history.requests_eq, requestsOf_eventsOf]
  have hlast : r.lastResponse =
      lastResponse? (client.replies j.requests (history.episodes.flatMap (·.sent))) := by
    rw [← requestsOf_eventsOf]
    exact history.lastResponse_eq
  refine ⟨history, history.executed_eq, hrequests, ?_, ?_, ?_, hlast, ?_⟩
  · rw [hrequests, List.length_append, length_flatMap_sent, history.executed_eq]
  · rw [history.naps_eq, napsOf_eventsOf]
  · intro x hx hskipped
    rw [history.executed_eq] at hx
    obtain ⟨e, -, rfl⟩ := List.mem_map.1 hx
    exact e.attempts_of_skipped hskipped
  · rw [hlast, lastResponse?_eq_none_iff]

namespace FlakyService

/-- A step that wants a status and tries again after a pause. -/
def step (name endpoint : String) (status retries interval : Nat) : Step :=
  { Step.plain name (.plain .get endpoint) with
    verification := some ⟨some status, .empty, [], []⟩
    retries := retries
    retryInterval := interval }

/-- A case with a step that passes in its third attempt, one that is skipped, one that has no
request, one that nobody answers, and a cleanup. -/
def case : TestCase :=
  ⟨"flaky", none, [], [],
    [step "third time" "x://h" 200 2 10,
      { step "unwanted" "x://h" 200 1 10 with condition := some "1 > 2" },
      step "nowhere" "/h" 200 1 10,
      step "silence" "x://h" 200 1 0],
    [step "cleanup" "x://h" 204 0 10]⟩

/-- A client that answers the first request with another status and some of the rest not at all. -/
def client : Client := fun sent =>
  match sent.length with
  | 1 => .ok ⟨500, [], ""⟩
  | 3 => .ok ⟨200, [], ""⟩
  | 6 => .ok ⟨204, [], ""⟩
  | _ => .error ["no route"]

end FlakyService

/-- Six requests and two pauses, in a run with attempts that fail, a step that is skipped and a step
without a request. -/
theorem exists_accounts_flakyService :
    ∃ r j', (runCase ⟨.standard, .empty⟩ FlakyService.case).play FlakyService.client .empty =
        (some r, j') ∧
      r.executed.map (·.attempts) = [3, 0, 0, 2, 1] ∧ j'.naps = [10, 10] ∧
      r.lastResponse.map (·.status) = some 204 ∧
      ∃ history : History ⟨.standard, .empty⟩ FlakyService.client FlakyService.case .empty r j',
        r.executed = history.episodes.map (·.record) ∧
        j'.requests = Journal.empty.requests ++ history.episodes.flatMap (·.sent) ∧
        j'.requests.length =
          Journal.empty.requests.length + (r.executed.map (·.attempts)).sum ∧
        j'.naps = Journal.empty.naps ++ history.episodes.flatMap (·.pauses) ∧
        (∀ x ∈ r.executed, x.status = .skipped → x.attempts = 0) ∧
        r.lastResponse =
          lastResponse? (FlakyService.client.replies Journal.empty.requests
            (history.episodes.flatMap (·.sent))) ∧
        (r.lastResponse = none ↔
          ∀ reply ∈ FlakyService.client.replies Journal.empty.requests
              (history.episodes.flatMap (·.sent)),
            ∃ fault, reply = .error fault) := by
  have hfacts : (((runCase ⟨.standard, .empty⟩ FlakyService.case).play
      FlakyService.client .empty).1.map fun r =>
        (r.executed.map (·.attempts), r.lastResponse.map (·.status))) =
      some ([3, 0, 0, 2, 1], some 204) := by decide +kernel
  have hnaps : ((runCase ⟨.standard, .empty⟩ FlakyService.case).play
      FlakyService.client .empty).2.naps = [10, 10] := by decide +kernel
  obtain ⟨r, hr, heq⟩ := Option.map_eq_some_iff.1 hfacts
  obtain ⟨hattempts, hstatus⟩ := Prod.mk.inj heq
  exact ⟨r, _, Prod.ext hr rfl, hattempts, hnaps, hstatus, exists_accounts (Prod.ext hr rfl)⟩

end RestCase
