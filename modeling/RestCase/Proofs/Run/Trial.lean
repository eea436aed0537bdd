/-
# RestCase.Proofs.Run.Trial — trials of a step

A step that is wanted and has a request sends it again and again until a response passes, an answer
cannot be judged, or no attempt is left.  `Trial` lists, one constructor for each ending or
repetition, everything that can come of the attempts that are left; `Carried` does the same for a
step as a whole.  Both say no more and no less than the processes do (`course_attempt_iff`,
`course_runStep_iff`), so that what a step can do is looked up here and never unfolded again.

A step breaks off exactly at a response that cannot be judged, after answers that each called for
another attempt (`carried_none_iff`).
-/
import RestCase.Proofs.Process.Course
import RestCase.Run.Case

namespace RestCase

/-! ## What a response comes to -/

namespace Step

variable [Pattern.Engine]

/-- The response passes every check (`checkFailures`), and what is taken from it leads to the
variables `ctx'` (`extractAll`). -/
def Passes (s : Step) (ctx : Context) (r : Response) (ctx' : Context) : Prop :=
  checkFailures s ctx r = .ok [] ∧ extractAll s ctx r = .ok ctx'

/-- The response fails some of the checks (`checkFailures`), with these messages. -/
def Fails (s : Step) (ctx : Context) (r : Response) (found : List String) : Prop :=
  checkFailures s ctx r = .ok found ∧ found ≠ []

/-- The response cannot be judged: a check breaks down, or all of them pass and what should be
taken from it breaks down. -/
def Stalls (s : Step) (ctx : Context) (r : Response) : Prop :=
  (∃ b, checkFailures s ctx r = .error b) ∨
    checkFailures s ctx r = .ok [] ∧ ∃ b, extractAll s ctx r = .error b

/-- The answer calls for another attempt, as long as one is left: it is none, or a response that
`Fails`. -/
def Repeats (s : Step) (ctx : Context) : Reply → Prop
  | .ok r => ∃ found, s.Fails ctx r found
  | .error _ => True

/-! ## Events of an attempt -/

/-- The pause before an attempt, where there is one. -/
def pauseEvents (s : Step) (n : Nat) : List Event :=
  ((RetryPolicy.ofStep s).pauseBefore? n).toList.map .nap

/-- What is done in an attempt: the pause before it (`pauseEvents`), and the exchange. -/
def tryEvents (s : Step) (request : Request) (n : Nat) (reply : Reply) : List Event :=
  s.pauseEvents n ++ [.exchange request reply]

/-- What is done in the attempts after the first `n`, which get these replies. -/
def triesEvents (s : Step) (request : Request) : Nat → List Reply → List Event
  | _, [] => []
  | n, reply :: rest => s.tryEvents request (n + 1) reply ++ triesEvents s request (n + 1) rest

end Step

/-! ## Trials -/

/-- What can come of the attempts of a step when `left` of them are left after `n`: the events,
and what the attempts leave behind, if they do not break off.  Each ends with an answer that
`Passes`, `Stalls` or is the last, or goes on after one that `Repeats`. -/
inductive Trial [Pattern.Engine] (s : Step) (request : Request) (ctx : Context) :
    (left n : Nat) → List String → Option Response → List Event → Option Attempted → Prop
  | spent {n : Nat} {failures : List String} {last : Option Response} :
      Trial s request ctx 0 n failures last [] (some ⟨.failed n failures, ctx, last⟩)
  | stalled {left n : Nat} {failures : List String} {last : Option Response} {r : Response} :
      s.Stalls ctx r →
      Trial s request ctx (left + 1) n failures last (s.tryEvents request (n + 1) (.ok r)) none
  | passed {left n : Nat} {failures : List String} {last : Option Response} {r : Response}
      {ctx' : Context} :
      s.Passes ctx r ctx' →
      Trial s request ctx (left + 1) n failures last (s.tryEvents request (n + 1) (.ok r))
        (some ⟨.passed (n + 1), ctx', some r⟩)
  | refused {left n : Nat} {failures found : List String} {last : Option Response} {r : Response}
      {l : List Event} {o : Option Attempted} :
      s.Fails ctx r found →
      Trial s request ctx left (n + 1) found (some r) l o →
      Trial s request ctx (left + 1) n failures last (s.tryEvents request (n + 1) (.ok r) ++ l) o
  | lost {n : Nat} {failures : List String} {last : Option Response} {fault : SendFault} :
      Trial s request ctx 1 n failures last (s.tryEvents request (n + 1) (.error fault))
        (some ⟨.errored (n + 1) (sendFaultText fault), ctx, last⟩)
  | unanswered {left n : Nat} {failures : List String} {last : Option Response}
      {fault : SendFault} {l : List Event} {o : Option Attempted} :
      left ≠ 0 →
      Trial s request ctx left (n + 1) failures last l o →
      Trial s request ctx (left + 1) n failures last
        (s.tryEvents request (n + 1) (.error fault) ++ l) o

/-- A process behind the pause of an attempt does the pause first. -/
theorem course_pause_iff {α : Type} {s : Step} {n : Nat} {p : Process α} {l : List Event}
    {o : Option α} :
    Process.Course (match (RetryPolicy.ofStep s).pauseBefore? n with
      | some time => .nap time p
      | none => p) l o ↔ ∃ l', l = s.pauseEvents n ++ l' ∧ p.Course l' o := by
  unfold Step.pauseEvents
  cases (RetryPolicy.ofStep s).pauseBefore? n with
  | none => simp
  | some time => simp [Process.course_nap_iff]

section Attempts

variable [Pattern.Engine] {s : Step} {request : Request} {ctx : Context} {last : Option Response}

/-- A response is judged by the checks first and by what is taken from it afterwards. -/
theorem course_judge_iff {r : Response} {n : Nat} {again : List String → Process Attempted}
    {l : List Event} {o : Option Attempted} :
    Process.Course ((Process.ofExcept (checkFailures s ctx r)).bind fun found =>
      if found.isEmpty then
        (Process.ofExcept (extractAll s ctx r)).bind fun ctx' =>
          .done ⟨.passed n, ctx', some r⟩
      else again found) l o ↔
      (s.Stalls ctx r ∧ l = [] ∧ o = none) ∨
      (∃ ctx', s.Passes ctx r ctx' ∧ l = [] ∧ o = some ⟨.passed n, ctx', some r⟩) ∨
      ∃ found, s.Fails ctx r found ∧ (again found).Course l o := by
  unfold Step.Stalls Step.Passes Step.Fails
  cases hc : checkFailures s ctx r with
  | error b => simp [Process.ofExcept, Process.bind, Process.course_broken_iff]
  | ok found =>
    -- a failed check asks for another attempt, and without one the rules are applied
    cases found with
    | cons f found =>
      simp only [Process.ofExcept, Process.bind, List.isEmpty_cons, Bool.false_eq_true, if_false]
      constructor
      · intro h
        exact Or.inr (Or.inr ⟨f :: found, ⟨rfl, List.cons_ne_nil f found⟩, h⟩)
      · rintro (⟨⟨b, hb⟩ | ⟨hb, -⟩, -⟩ | ⟨ctx', ⟨hb, -⟩, -⟩ | ⟨found', ⟨hb, -⟩, h⟩)
        · cases hb
        · cases hb
        · cases hb
        · obtain rfl := Except.ok.inj hb
          exact h
    | nil =>
      cases he : extractAll s ctx r with
      | error b => simp [Process.ofExcept, Process.bind, Process.course_broken_iff]
      | ok ctx' => simp [Process.ofExcept, Process.bind, Process.course_done_iff]

/-- **Trials are the courses of the attempts**: `Course` of `attempt` against `Trial`. -/
theorem course_attempt_iff {left n : Nat} {failures : List String} {l : List Event}
    {o : Option Attempted} :
    (attempt s request ctx left n failures last).Course l o ↔
      Trial s request ctx left n failures last l o := by
  -- the messages and the last response of the attempts so far change from one to the next
  induction left generalizing n failures last l with
  | zero =>
    rw [attempt, Process.course_done_iff]
    constructor
    · rintro ⟨rfl, rfl⟩
      exact .spent
    · intro h
      cases h
      exact ⟨rfl, rfl⟩
  | succ left ih =>
    rw [attempt]
    refine Iff.trans course_pause_iff ?_
    constructor
    · rintro ⟨l', rfl, h⟩
      obtain ⟨reply, l', rfl, hk⟩ := Process.course_send_iff.1 h
      rw [List.append_cons]
      cases reply with
      | error fault =>
        by_cases hleft : left = 0
        · subst hleft
          obtain ⟨rfl, rfl⟩ := Process.course_done_iff.1 hk
          rw [List.append_nil]
          exact .lost
        · simp only [hleft, if_false] at hk
          exact .unanswered hleft (ih.1 hk)
      | ok r =>
        rcases course_judge_iff.1 hk with ⟨hs, rfl, rfl⟩ | ⟨ctx', hp, rfl, rfl⟩ | ⟨found, hf, hr⟩
        · rw [List.append_nil]
          exact .stalled hs
        · rw [List.append_nil]
          exact .passed hp
        · exact .refused hf (ih.1 hr)
    · intro h
      cases h with
      | stalled hs =>
        refine ⟨_, rfl, .send ?_⟩
        exact course_judge_iff.2 (Or.inl ⟨hs, rfl, rfl⟩)
      | passed hp =>
        refine ⟨_, rfl, .send ?_⟩
        exact course_judge_iff.2 (Or.inr (Or.inl ⟨_, hp, rfl, rfl⟩))
      | refused hf h =>
        refine ⟨_, List.append_assoc _ _ _, .send ?_⟩
        exact course_judge_iff.2 (Or.inr (Or.inr ⟨_, hf, ih.2 h⟩))
      | lost =>
        refine ⟨_, rfl, .send ?_⟩
        exact Process.course_done_iff.2 ⟨rfl, rfl⟩
      | unanswered hleft h =>
        refine ⟨_, List.append_assoc _ _ _, .send ?_⟩
        simp only [hleft, if_false]
        exact ih.2 h

end Attempts

/-! ## Trials that break off -/

namespace Trial

variable [Pattern.Engine] {s : Step} {request : Request} {ctx : Context}

/-- A trial breaks off at a response that `Stalls`; every answer before it called for the next
attempt. -/
theorem exists_stalled {left n : Nat} {failures : List String} {last : Option Response}
    {l : List Event} (h : Trial s request ctx left n failures last l none) :
    ∃ replies r, l = s.triesEvents request n (replies ++ [.ok r]) ∧ replies.length < left ∧
      (∀ reply ∈ replies, s.Repeats ctx reply) ∧ s.Stalls ctx r := by
  generalize ho : (none : Option Attempted) = o at h
  -- only the constructors that go on, and the one that breaks off, are left
  induction h with
  | spent => cases ho
  | passed _ => cases ho
  | lost => cases ho
  | @stalled left n failures last r hs =>
    refine ⟨[], r, ?_, Nat.succ_pos left, ?_, hs⟩
    · simp [Step.triesEvents]
    · simp
  | @refused left n failures found last r l o hf _ ih =>
    obtain ⟨replies, r', rfl, hlen, hrep, hs⟩ := ih ho
    refine ⟨.ok r :: replies, r', rfl, Nat.succ_lt_succ hlen, ?_, hs⟩
    intro reply hmem
    rcases List.mem_cons.1 hmem with rfl | hmem
    · exact ⟨found, hf⟩
    · exact hrep reply hmem
  | @unanswered left n failures last fault l o hleft _ ih =>
    obtain ⟨replies, r', rfl, hlen, hrep, hs⟩ := ih ho
    refine ⟨.error fault :: replies, r', rfl, Nat.succ_lt_succ hlen, ?_, hs⟩
    intro reply hmem
    rcases List.mem_cons.1 hmem with rfl | hmem
    · trivial
    · exact hrep reply hmem

/-- Such answers, one after the other, do make a trial break off. -/
theorem of_stalled {replies : List Reply} {r : Response}
    (hrep : ∀ reply ∈ replies, s.Repeats ctx reply) (hs : s.Stalls ctx r) {left n : Nat}
    (hlen : replies.length < left) (failures : List String) (last : Option Response) :
    Trial s request ctx left n failures last (s.triesEvents request n (replies ++ [.ok r]))
      none := by
  induction replies generalizing left n failures last with
  | nil =>
    obtain ⟨left, rfl⟩ := Nat.exists_eq_add_of_lt hlen
    simpa [Step.triesEvents] using Trial.stalled (n := n) hs
  | cons reply replies ih =>
    obtain ⟨left, rfl⟩ : ∃ left', left = left' + 1 := ⟨left - 1, by simp at hlen; omega⟩
    have hlen' : replies.length < left := Nat.lt_of_succ_lt_succ hlen
    have hrep' : ∀ reply ∈ replies, s.Repeats ctx reply :=
      fun x hx => hrep x (List.mem_cons_of_mem reply hx)
    cases reply with
    | error fault => exact .unanswered (Nat.ne_zero_of_lt hlen') (ih hrep' hlen' failures last)
    | ok r' =>
      obtain ⟨found, hf⟩ := hrep (.ok r') List.mem_cons_self
      exact .refused hf (ih hrep' hlen' found (some r'))

end Trial

/-! ## Steps -/

/-- What can come of a step: it is not wanted, or has no request, or its request is tried
(`Trial`). -/
inductive Carried [Pattern.Engine] [Url.Names] (env : Environment) (s : Step) (p : Progress) :
    List Event → Option Attempted → Prop
  | skipped : s.isWanted p.context = false →
      Carried env s p [] (some ⟨.skipped, p.context, p.lastResponse⟩)
  | unprepared {fault : Settings.EndpointFault} : s.isWanted p.context = true →
      s.request.prepare env.settings env.users p.context = .error fault →
      Carried env s p [] (some ⟨.errored 0 fault.message, p.context, p.lastResponse⟩)
  | tried {request : Request} {l : List Event} {o : Option Attempted} :
      s.isWanted p.context = true →
      s.request.prepare env.settings env.users p.context = .ok request →
      Trial s request p.context (RetryPolicy.ofStep s).maxAttempts 0 [] p.lastResponse l o →
      Carried env s p l o

/-- **A step is carried out in the ways that its process allows**: `Course` of `runStep` against
`Carried`. -/
theorem course_runStep_iff [Pattern.Engine] [Url.Names] {env : Environment} {s : Step}
    {p : Progress} {l : List Event}
    {o : Option Attempted} : (runStep env s p).Course l o ↔ Carried env s p l o := by
  constructor
  · intro h
    unfold runStep at h
    split at h
    · next hw =>
      split at h
      · next fault hp =>
        obtain ⟨rfl, rfl⟩ := Process.course_done_iff.1 h
        exact .unprepared hw hp
      · next request hp => exact .tried hw hp (course_attempt_iff.1 h)
    · next hw =>
      obtain ⟨rfl, rfl⟩ := Process.course_done_iff.1 h
      exact .skipped (Bool.eq_false_iff.2 hw)
  · intro h
    cases h with
    | skipped hw =>
      rw [runStep_skipped hw]
      exact .done _
    | unprepared hw hp =>
      simp only [runStep, hw, if_true, hp]
      exact .done _
    | tried hw hp ht =>
      simp only [runStep, hw, if_true, hp]
      exact course_attempt_iff.2 ht

/-- **A step breaks off** exactly at a response that `Stalls`, after answers each of which
`Repeats`. -/
theorem carried_none_iff [Pattern.Engine] [Url.Names] {env : Environment} {s : Step} {p : Progress}
    {l : List Event} :
    Carried env s p l none ↔
      s.isWanted p.context = true ∧
        ∃ request, s.request.prepare env.settings env.users p.context = .ok request ∧
          ∃ replies r, l = s.triesEvents request 0 (replies ++ [.ok r]) ∧
            replies.length < (RetryPolicy.ofStep s).maxAttempts ∧
            (∀ reply ∈ replies, s.Repeats p.context reply) ∧ s.Stalls p.context r := by
  constructor
  · intro h
    cases h with
    | tried hw hp ht => exact ⟨hw, _, hp, ht.exists_stalled⟩
  · rintro ⟨hw, request, hp, replies, r, rfl, hlen, hrep, hs⟩
    exact .tried hw hp (.of_stalled hrep hs hlen [] p.lastResponse)

end RestCase
