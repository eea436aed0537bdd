/-
# RestCase.Proofs.Run.Retrying — the retrying of a step

A step that is wanted and has a request sends that one request until a reply is accepted, at most as
often as it has attempts.  The replies to equal requests, one after the other, form a sequence that
the client and the journal fix (`Client.replyAt`), and everything that comes of the step is read off
that sequence: which attempt is the last, how the step ends, what it sends, how it pauses, and which
variables and which last response it leaves (`runStep_retries`).

The replies of a finished trial are recovered from its events first (`Trial.exists_replies`), where
the attempts end at the first accepted reply, or at the last reply of all; that they are the ones of
the sequence is what it means for a client to answer.

Boundary: a response that cannot be judged ends the trial without a verdict, also where a later
reply would be accepted (`exists_accepted_reply_not_reached`).
-/
import RestCase.Proofs.Run.Accounts
import RestCase.Proofs.Run.Provenance
import RestCase.Proofs.Run.Returning

namespace RestCase

/-! ## Replies to equal requests -/

/-- The reply to the `i`-th of equal requests that follow a journal: it may depend on `i`. -/
def Client.replyAt (client : Client) (j : Journal) (request : Request) (i : Nat) : Reply :=
  client (j.requests ++ List.replicate i request)

theorem Client.replies_replicate_succ (client : Client) (sent : List Request) (request : Request)
    (n : Nat) :
    client.replies sent (List.replicate (n + 1) request) =
      client.replies sent (List.replicate n request) ++
        [client (sent ++ List.replicate (n + 1) request)] := by
  induction n generalizing sent with
  | zero => rfl
  | succ n ih =>
    have hshift : sent ++ [request] ++ List.replicate (n + 1) request =
        sent ++ List.replicate (n + 1 + 1) request := by
      rw [List.append_assoc]
      rfl
    rw [List.replicate_succ, replies, ih, hshift]
    rfl

/-- The first replies are those with the numbers from one on. -/
theorem Client.mem_replies_replicate {client : Client} {j : Journal} {request : Request} {n : Nat}
    {reply : Reply} :
    reply ∈ client.replies j.requests (List.replicate n request) ↔
      ∃ i, 1 ≤ i ∧ i ≤ n ∧ client.replyAt j request i = reply := by
  induction n with
  | zero =>
    constructor
    · intro h
      cases h
    · rintro ⟨i, h1, h0, -⟩
      omega
  | succ n ih =>
    rw [replies_replicate_succ, List.mem_append, List.mem_singleton, ih]
    constructor
    · rintro (⟨i, h1, hn, h⟩ | rfl)
      · exact ⟨i, h1, Nat.le_succ_of_le hn, h⟩
      · exact ⟨n + 1, Nat.succ_pos n, Nat.le_refl _, rfl⟩
    · rintro ⟨i, h1, hn, rfl⟩
      rcases Nat.lt_or_eq_of_le hn with hlt | rfl
      · exact Or.inl ⟨i, h1, Nat.le_of_lt_succ hlt, rfl⟩
      · exact Or.inr rfl

/-! ## Events of attempts -/

section Tries

variable {s : Step} {request : Request}

theorem requestsOf_triesEvents (n : Nat) (replies : List Reply) :
    requestsOf (s.triesEvents request n replies) = List.replicate replies.length request := by
  induction replies generalizing n with
  | nil => rfl
  | cons reply rest ih =>
    rw [Step.triesEvents, requestsOf_append, Step.requestsOf_tryEvents, ih]
    rfl

theorem repliesOf_triesEvents (n : Nat) (replies : List Reply) :
    repliesOf (s.triesEvents request n replies) = replies := by
  induction replies generalizing n with
  | nil => rfl
  | cons reply rest ih =>
    rw [Step.triesEvents, repliesOf_append, Step.repliesOf_tryEvents, ih]
    rfl

theorem napsOf_triesEvents (n : Nat) (replies : List Reply) :
    napsOf (s.triesEvents request n replies) = s.pausesBetween n (n + replies.length) := by
  induction replies generalizing n with
  | nil => exact (s.pausesBetween_self n).symm
  | cons reply rest ih =>
    rw [Step.triesEvents, napsOf_append, Step.napsOf_tryEvents, ih,
      s.pausesBetween_append (Nat.le_succ n) (Nat.le_add_right (n + 1) rest.length),
      List.length_cons, Nat.add_right_comm n 1, Nat.add_assoc n]

/-- Replies that the client gives in attempts are the first ones of its sequence. -/
theorem replies_eq_of_answers {client : Client} {j : Journal} {n : Nat} {replies : List Reply}
    (h : client.Answers j (s.triesEvents request n replies)) :
    replies = client.replies j.requests (List.replicate replies.length request) := by
  have := h.repliesOf_eq
  rwa [repliesOf_triesEvents, requestsOf_triesEvents] at this

/-- The replies of attempts, the last one apart, by their numbers. -/
theorem split_replies {client : Client} {j : Journal} {front : List Reply} {final : Reply}
    (h : client.Answers j (s.triesEvents request 0 (front ++ [final]))) :
    (∀ {reply}, reply ∈ front ↔
      ∃ i, 1 ≤ i ∧ i ≤ front.length ∧ client.replyAt j request i = reply) ∧
    final = client.replyAt j request (front.length + 1) := by
  have hreplies := replies_eq_of_answers h
  rw [List.length_append, List.length_singleton, Client.replies_replicate_succ] at hreplies
  obtain ⟨hfront, hfinal⟩ := List.append_inj' hreplies rfl
  refine ⟨?_, List.singleton_inj.1 hfinal⟩
  intro reply
  rw [← Client.mem_replies_replicate, ← hfront]

end Tries

/-- The journal after a step has sent its request `n` times. -/
def Journal.tried (j : Journal) (s : Step) (request : Request) (n : Nat) : Journal :=
  ⟨j.requests ++ List.replicate n request,
    j.naps ++ if 0 < s.retryInterval then List.replicate (n - 1) s.retryInterval else []⟩

theorem Journal.after_triesEvents (j : Journal) (s : Step) (request : Request)
    (replies : List Reply) :
    j.after (s.triesEvents request 0 replies) = j.tried s request replies.length := by
  have hrequests : (j.after (s.triesEvents request 0 replies)).requests =
      (j.tried s request replies.length).requests := by
    rw [Journal.requests_after, requestsOf_triesEvents]
    rfl
  have hnaps : (j.after (s.triesEvents request 0 replies)).naps =
      (j.tried s request replies.length).naps := by
    rw [Journal.naps_after, napsOf_triesEvents, Nat.zero_add]
    rfl
  calc j.after (s.triesEvents request 0 replies)
      = ⟨(j.after (s.triesEvents request 0 replies)).requests,
          (j.after (s.triesEvents request 0 replies)).naps⟩ := rfl
    _ = j.tried s request replies.length := by rw [hrequests, hnaps]

/-! ## Where the attempts end -/

namespace Step

variable [Pattern.Engine]

/-- The reply is a response that passes every check of the step (`checkFailures` gives none). -/
def Accepts (s : Step) (ctx : Context) : Reply → Prop
  | .ok r => checkFailures s ctx r = .ok []
  | .error _ => False

/-- How a step ends when the reply to its `n`-th attempt, the last one, is not accepted: with the
messages of that reply or, if there was none, with the reason for that (`sendFaultText`). -/
def GivesUp (s : Step) (ctx : Context) (n : Nat) (o : Outcome) : Reply → Prop
  | .ok r => ∃ found, s.Fails ctx r found ∧ o = .failed n found
  | .error fault => o = .errored n (sendFaultText fault)

/-- The `k`-th reply is accepted (`Accepts`), and of the first `m` it is the first one. -/
def FirstAccepted (s : Step) (ctx : Context) (reply : Nat → Reply) (m k : Nat) : Prop :=
  1 ≤ k ∧ k ≤ m ∧ s.Accepts ctx (reply k) ∧ ∀ i, 1 ≤ i → i < k → ¬ s.Accepts ctx (reply i)

theorem accepts_ok_iff {s : Step} {ctx : Context} {r : Response} :
    s.Accepts ctx (.ok r) ↔ (checkFailures s ctx r).toOption = some [] := by
  show checkFailures s ctx r = .ok [] ↔ _
  cases checkFailures s ctx r <;> simp [Except.toOption]

theorem Repeats.not_accepts {s : Step} {ctx : Context} {reply : Reply} (h : s.Repeats ctx reply) :
    ¬ s.Accepts ctx reply := by
  cases reply with
  | error fault => exact not_false
  | ok r =>
    obtain ⟨found, hfound, hne⟩ := h
    intro hnil
    rw [Accepts, hfound] at hnil
    exact hne (Except.ok.inj hnil)

/-- A response that cannot be judged does not call for another attempt. -/
theorem Repeats.not_stalls {s : Step} {ctx : Context} {r : Response}
    (h : s.Repeats ctx (.ok r)) : ¬ s.Stalls ctx r := by
  obtain ⟨found, hfound, hne⟩ := h
  rintro (⟨b, hb⟩ | ⟨hnil, -⟩)
  · rw [hfound] at hb
    cases hb
  · rw [hfound] at hnil
    exact hne (Except.ok.inj hnil)

/-- Nor does it pass. -/
theorem Passes.not_stalls {s : Step} {ctx ctx' : Context} {r : Response}
    (h : s.Passes ctx r ctx') : ¬ s.Stalls ctx r := by
  rintro (⟨b, hb⟩ | ⟨-, b, hb⟩)
  · rw [h.1] at hb
    cases hb
  · rw [h.2] at hb
    cases hb

end Step

/-- **The attempts of a step end at the first accepted reply, or at the last reply of all**; the
replies before called for another attempt (`Repeats`). -/
theorem Trial.exists_replies [Pattern.Engine] {s : Step} {request : Request} {ctx : Context}
    {left n : Nat}
    {failures : List String} {last : Option Response} {l : List Event} {a : Attempted}
    (h : Trial s request ctx left n failures last l (some a)) (hleft : left ≠ 0) :
    ∃ front final, l = s.triesEvents request n (front ++ [final]) ∧ front.length < left ∧
      (∀ reply ∈ front, s.Repeats ctx reply) ∧
      ((∃ r, final = .ok r ∧ s.Passes ctx r a.context ∧
          a.outcome = .passed (n + front.length + 1)) ∨
        (front.length + 1 = left ∧ s.Repeats ctx final ∧ a.context = ctx ∧
          s.GivesUp ctx (n + left) a.outcome final)) := by
  generalize ho : some a = o at h
  induction h with
  | spent => exact absurd rfl hleft
  | stalled => cases ho
  | @passed left n failures last r ctx' hp =>
    obtain rfl := Option.some.inj ho
    exact ⟨[], .ok r, (List.append_nil _).symm, Nat.succ_pos left, by simp,
      Or.inl ⟨r, rfl, hp, rfl⟩⟩
  | @lost n failures last fault =>
    obtain rfl := Option.some.inj ho
    exact ⟨[], .error fault, (List.append_nil _).symm, Nat.one_pos, by simp,
      Or.inr ⟨rfl, trivial, rfl, rfl⟩⟩
  | @refused left n failures found last r l o hf ht ih =>
    have hrepeats : s.Repeats ctx (.ok r) := ⟨found, hf⟩
    by_cases hzero : left = 0
    · -- the messages of this response are those of the step, whatever came before it
      subst hzero
      cases ht with
      | spent =>
        obtain rfl := Option.some.inj ho
        exact ⟨[], .ok r, rfl, Nat.one_pos, by simp,
          Or.inr ⟨rfl, hrepeats, rfl, found, hf, rfl⟩⟩
    · obtain ⟨front, final, rfl, hlen, hfront, hend⟩ := ih hzero ho
      refine ⟨.ok r :: front, final, rfl, Nat.succ_lt_succ hlen, ?_, ?_⟩
      · exact List.forall_mem_cons.2 ⟨hrepeats, hfront⟩
      · rw [List.length_cons, ← Nat.add_assoc, Nat.add_right_comm n front.length 1,
          Nat.add_right_cancel_iff, ← Nat.add_assoc, Nat.add_right_comm n left 1]
        exact hend
  | @unanswered left n failures last fault l o hne ht ih =>
    obtain ⟨front, final, rfl, hlen, hfront, hend⟩ := ih hne ho
    refine ⟨.error fault :: front, final, rfl, Nat.succ_lt_succ hlen, ?_, ?_⟩
    · exact List.forall_mem_cons.2 ⟨trivial, hfront⟩
    · rw [List.length_cons, ← Nat.add_assoc, Nat.add_right_comm n front.length 1,
        Nat.add_right_cancel_iff, ← Nat.add_assoc, Nat.add_right_comm n left 1]
      exact hend

/-! ## What comes of a step -/

section Steps

variable [Pattern.Engine] [Url.Names] {env : Environment} {s : Step} {p : Progress}
    {client : Client} {j j' : Journal}
  {request : Request} {a : Attempted}

/-- The last attempt of a step that returns is the `n`-th one: the replies before it called for
another attempt, and it was accepted or there was no attempt left. -/
theorem exists_last_attempt (hw : s.isWanted p.context = true)
    (hp : s.request.prepare env.settings env.users p.context = .ok request)
    (h : (runStep env s p).play client j = (some a, j')) :
    ∃ n, 1 ≤ n ∧ n ≤ (RetryPolicy.ofStep s).maxAttempts ∧ j' = j.tried s request n ∧
      a.lastResponse =
        (lastResponse? (client.replies j.requests (List.replicate n request))).or p.lastResponse ∧
      (∀ i, 1 ≤ i → i < n → s.Repeats p.context (client.replyAt j request i)) ∧
      ((∃ r, client.replyAt j request n = .ok r ∧ s.Passes p.context r a.context ∧
          a.outcome = .passed n) ∨
        (n = (RetryPolicy.ofStep s).maxAttempts ∧
          s.Repeats p.context (client.replyAt j request n) ∧ a.context = p.context ∧
          s.GivesUp p.context n a.outcome (client.replyAt j request n))) := by
  obtain ⟨l, hl, hanswers, rfl⟩ := Process.play_eq_iff.1 h
  cases course_runStep_iff.1 hl with
  | skipped hw' =>
    rw [hw] at hw'
    cases hw'
  | unprepared _ hp' =>
    rw [hp] at hp'
    cases hp'
  | @tried request' _ _ _ hp' ht =>
    rw [hp] at hp'
    obtain rfl := Except.ok.inj hp'
    have hmax : (RetryPolicy.ofStep s).maxAttempts ≠ 0 := by
      simp [RetryPolicy.maxAttempts, RetryPolicy.attemptLimit]
    have hlast := ht.accounts.lastResponse_eq
    -- the events of the attempts are the requests to the client, and it answers them one by one
    obtain ⟨front, final, rfl, hlen, hfront, hend⟩ := ht.exists_replies hmax
    obtain ⟨hfront', rfl⟩ := split_replies hanswers
    rw [repliesOf_triesEvents, replies_eq_of_answers hanswers, List.length_append,
      List.length_singleton] at hlast
    refine ⟨front.length + 1, Nat.succ_pos _, hlen, ?_, hlast, ?_, ?_⟩
    · rw [Journal.after_triesEvents, List.length_append, List.length_singleton]
    · intro i hi hlt
      exact hfront _ (hfront'.2 ⟨i, hi, Nat.le_of_lt_succ hlt, rfl⟩)
    · rw [Nat.zero_add] at hend
      rcases hend with ⟨r, hr, hpasses, ho⟩ | ⟨heq, hrepeats, hctx, hgives⟩
      · exact Or.inl ⟨r, hr, hpasses, ho⟩
      · rw [Nat.zero_add, ← heq] at hgives
        exact Or.inr ⟨heq, hrepeats, hctx, hgives⟩

/-- **A step returns** exactly if no response that it comes to `Stalls`. -/
theorem exists_play_runStep_iff (hw : s.isWanted p.context = true)
    (hp : s.request.prepare env.settings env.users p.context = .ok request) :
    (∃ a j', (runStep env s p).play client j = (some a, j')) ↔
      ∀ n r, 1 ≤ n → n ≤ (RetryPolicy.ofStep s).maxAttempts →
        (∀ i, 1 ≤ i → i < n → s.Repeats p.context (client.replyAt j request i)) →
        client.replyAt j request n = .ok r → ¬ s.BreaksOn p.context r := by
  constructor
  · rintro ⟨a, j', h⟩ n r hn hle hrep hr hbreaks
    have hstalls := stalls_iff.2 hbreaks
    obtain ⟨k, hk, -, -, -, hbefore, hend⟩ := exists_last_attempt hw hp h
    -- the step cannot have gone past the response, nor stopped at it, nor before it
    rcases Nat.lt_trichotomy n k with hlt | rfl | hgt
    · have hrepeats := hbefore n hn hlt
      rw [hr] at hrepeats
      exact hrepeats.not_stalls hstalls
    · rcases hend with ⟨r', hr', hpasses, -⟩ | ⟨-, hrepeats, -, -⟩
      · obtain rfl := Except.ok.inj (hr.symm.trans hr')
        exact hpasses.not_stalls hstalls
      · rw [hr] at hrepeats
        exact hrepeats.not_stalls hstalls
    · rcases hend with ⟨r', hr', hpasses, -⟩ | ⟨heq, -, -, -⟩
      · have hrepeats := hrep k hk hgt
        rw [hr'] at hrepeats
        exact hrepeats.not_accepts hpasses.1
      · omega
  · intro h
    rcases hplay : (runStep env s p).play client j with ⟨_ | a, j'⟩
    · obtain ⟨l, hl, hanswers, -⟩ := Process.play_eq_iff.1 hplay
      obtain ⟨-, request', hp', front, r, rfl, hlen, hfront, hstalls⟩ :=
        carried_none_iff.1 (course_runStep_iff.1 hl)
      obtain rfl := Except.ok.inj (hp.symm.trans hp')
      obtain ⟨hfront', hr⟩ := split_replies hanswers
      refine absurd (stalls_iff.1 hstalls)
        (h (front.length + 1) r (Nat.succ_pos _) hlen ?_ hr.symm)
      intro i hi hlt
      exact hfront _ (hfront'.2 ⟨i, hi, Nat.le_of_lt_succ hlt, rfl⟩)
    · exact ⟨a, j', rfl⟩

end Steps

/-- **The retrying of a step** (`runStep`).  A step that is not wanted is skipped, and one without a
request is given up, before anything is sent.  Otherwise the step returns exactly if every response
that it comes to can be judged (it `BreaksOn` none of them), and then, with `m` attempts at most:

* if one of the first `m` replies is accepted (`FirstAccepted`), the step passes with the first of
  those, after as many requests as its number says, and what is extracted from that response is the
  new context;
* if none is (`GivesUp`), the request is sent `m` times, the context stays as it was, and the step
  ends with the reason why the last reply is missing, or with the messages of the checks that it
  fails;
* all requests are equal, the interval of the step, if it is not zero, is paused between each two of
  them, and the last response is the last one among the replies, or the one from before. -/
theorem runStep_retries [Pattern.Engine] [Url.Names] (env : Environment) (s : Step) (p : Progress)
    (client : Client) (j : Journal) :
    (s.isWanted p.context = false →
      (runStep env s p).play client j = (some ⟨.skipped, p.context, p.lastResponse⟩, j)) ∧
    (s.isWanted p.context = true → ∀ fault,
      s.request.prepare env.settings env.users p.context = .error fault →
      (runStep env s p).play client j =
        (some ⟨.errored 0 fault.message, p.context, p.lastResponse⟩, j)) ∧
    (s.isWanted p.context = true → ∀ request,
      s.request.prepare env.settings env.users p.context = .ok request →
      let m := min (s.retries + 1) 0xFFFFFFFF
      let reply := client.replyAt j request
      ((∃ a j', (runStep env s p).play client j = (some a, j')) ↔
        ∀ n r, 1 ≤ n → n ≤ m → (∀ i, 1 ≤ i → i < n → s.Repeats p.context (reply i)) →
          reply n = .ok r → ¬ s.BreaksOn p.context r) ∧
      ∀ a j', (runStep env s p).play client j = (some a, j') →
        ∃ n, j' = j.tried s request n ∧
          (∀ k, s.FirstAccepted p.context reply m k →
            n = k ∧ a.outcome = .passed k ∧ ∃ r x, reply k = .ok r ∧
              extract p.context s.name s.extractions r.body = .ok x ∧ a.context = x.context) ∧
          ((∀ i, 1 ≤ i → i ≤ m → ¬ s.Accepts p.context (reply i)) →
            n = m ∧ s.GivesUp p.context m a.outcome (reply m) ∧ a.context = p.context) ∧
          a.lastResponse =
            (lastResponse? (client.replies j.requests (List.replicate n request))).or
              p.lastResponse) := by
  refine ⟨?_, ?_, ?_⟩
  · intro hw
    rw [runStep_skipped hw]
    rfl
  · intro hw fault hp
    rw [runStep, if_pos hw, hp]
    rfl
  · intro hw request hp
    refine ⟨exists_play_runStep_iff hw hp, ?_⟩
    intro a j' h
    obtain ⟨n, hn, hle, hj, hlast, hbefore, hend⟩ := exists_last_attempt hw hp h
    refine ⟨n, hj, ?_, ?_, hlast⟩
    · rintro k ⟨hk, hkm, haccepts, hfirst⟩
      -- an accepted reply is no reason for another attempt, so the step does not go past it
      have hnk : n ≤ k := by
        by_contra hlt
        exact (hbefore k hk (Nat.lt_of_not_le hlt)).not_accepts haccepts
      rcases hend with ⟨r, hr, hpasses, ho⟩ | ⟨rfl, hrepeats, -, -⟩
      · have hkn : k ≤ n := by
          by_contra hlt
          refine hfirst n hn (Nat.lt_of_not_le hlt) ?_
          rw [hr]
          exact hpasses.1
        obtain rfl := Nat.le_antisymm hnk hkn
        have hextract := hpasses.2
        rw [extractAll_eq] at hextract
        cases hx : extract p.context s.name s.extractions r.body with
        | error b =>
          rw [hx] at hextract
          cases hextract
        | ok x =>
          rw [hx] at hextract
          exact ⟨rfl, ho, r, x, hr, hx, (Except.ok.inj hextract).symm⟩
      · obtain rfl := Nat.le_antisymm hnk hkm
        exact absurd haccepts hrepeats.not_accepts
    · intro hnone
      rcases hend with ⟨r, hr, hpasses, -⟩ | ⟨rfl, -, hctx, hgives⟩
      · refine absurd ?_ (hnone n hn hle)
        rw [hr]
        exact hpasses.1
      · exact ⟨rfl, hgives, hctx⟩

namespace LateToken

/-- A step that wants a status and takes a token from the response, with two attempts more after
pauses. -/
def step : Step :=
  { Step.plain "login" (.plain .get "x://h") with
    verification := some ⟨some 200, .empty, [], [⟨"$[0]", "token", none⟩]⟩
    retries := 2
    retryInterval := 10 }

/-- A client that does not answer, then answers with another status, then with a token. -/
def client : Client := fun sent =>
  match sent.length with
  | 1 => .error ["no route"]
  | 2 => .ok ⟨503, [], "[\"early\"]"⟩
  | _ => .ok ⟨200, [], "[\"late\"]"⟩

end LateToken

/-- The third reply is the first one accepted: three requests, two pauses, and the token of the
third response. -/
theorem runStep_retries_lateToken :
    ∃ request a j',
      (runStep ⟨.standard, .empty⟩ LateToken.step .start).play LateToken.client .empty =
        (some a, j') ∧
      LateToken.step.FirstAccepted .empty (LateToken.client.replyAt .empty request) 3 3 ∧
      a.outcome = .passed 3 ∧ j' = ⟨[request, request, request], [10, 10]⟩ ∧
      (a.context.get? "token").map Json.stringForm = some "late" := by
  have hw : LateToken.step.isWanted Progress.start.context = true := rfl
  have hsome : (LateToken.step.request.prepare .standard .empty Context.empty).toOption.isSome =
      true := by decide +kernel
  cases hp : LateToken.step.request.prepare .standard .empty Context.empty with
  | error fault =>
    rw [hp] at hsome
    cases hsome
  | ok request =>
    obtain ⟨hreturns, hends⟩ :=
      (runStep_retries ⟨.standard, .empty⟩ LateToken.step .start LateToken.client .empty).2.2
        hw request hp
    have hfirst : LateToken.step.FirstAccepted .empty
        (LateToken.client.replyAt .empty request) 3 3 := by
      refine ⟨by decide, by decide, Step.accepts_ok_iff.2 (by decide +kernel), ?_⟩
      intro i hi hlt
      obtain rfl | rfl : i = 1 ∨ i = 2 := by omega
      · exact not_false
      · exact mt Step.accepts_ok_iff.1 (by decide +kernel)
    have hsound : LateToken.step.isSound = true := by decide +kernel
    obtain ⟨a, j', hplay⟩ := hreturns.2 fun n r _ _ _ _ => not_breaksOn_of_isSound hsound _ r
    obtain ⟨n, rfl, hpassed, -, -⟩ := hends a j' hplay
    obtain ⟨rfl, ho, r, x, hr, hx, hctx⟩ := hpassed 3 hfirst
    obtain rfl := Except.ok.inj hr
    refine ⟨request, a, _, hplay, hfirst, ho, rfl, ?_⟩
    have htoken : ((extract .empty LateToken.step.name LateToken.step.extractions
        "[\"late\"]").toOption.bind (·.context.get? "token")).map Json.stringForm =
        some "late" := by decide +kernel
    have hx' : extract .empty LateToken.step.name LateToken.step.extractions "[\"late\"]" =
        .ok x := hx
    rw [hx'] at htoken
    rw [hctx]
    exact htoken

namespace SecondThoughts

/-- A step that waits for the number 1, wants nothing to be cut from it with a stride of zero, and
may be tried again. -/
def step : Step :=
  { Step.plain "poll" (.plain .get "x://h") with
    verification := some ⟨none, .empty,
      [⟨"$", .int 1, "equals"⟩, ⟨"$[::0]", .null, "isEmpty"⟩], []⟩
    retries := 1 }

/-- A client that answers with an array, and with the number when it is asked again. -/
def client : Client := fun sent =>
  match sent.length with
  | 1 => .ok ⟨200, [], "[1]"⟩
  | _ => .ok ⟨200, [], "1"⟩

end SecondThoughts

/-- **A step need not get as far as the reply that it would accept**: at a response on which a
path breaks down (it `Stalls`), the step breaks off and does not try again. -/
theorem exists_accepted_reply_not_reached :
    ¬ ∀ (env : Environment) (s : Step) (p : Progress) (client : Client) (j : Journal)
        (request : Request) (k : Nat),
      s.isWanted p.context = true →
      s.request.prepare env.settings env.users p.context = .ok request →
      s.FirstAccepted p.context (client.replyAt j request) (min (s.retries + 1) 0xFFFFFFFF) k →
      ∃ a j', (runStep env s p).play client j = (some a, j') ∧ a.outcome = .passed k := by
  intro h
  have hsome :
      (SecondThoughts.step.request.prepare .standard .empty Context.empty).toOption.isSome =
      true := by decide +kernel
  cases hp : SecondThoughts.step.request.prepare .standard .empty Context.empty with
  | error fault =>
    rw [hp] at hsome
    cases hsome
  | ok request =>
    have hfirst : SecondThoughts.step.FirstAccepted .empty
        (SecondThoughts.client.replyAt .empty request) 2 2 := by
      refine ⟨by decide, by decide, Step.accepts_ok_iff.2 (by decide +kernel), ?_⟩
      intro i hi hlt
      obtain rfl : i = 1 := by omega
      exact mt Step.accepts_ok_iff.1 (by decide +kernel)
    obtain ⟨a, j', hplay, -⟩ :=
      h ⟨.standard, .empty⟩ SecondThoughts.step .start SecondThoughts.client .empty request 2 rfl hp
        hfirst
    have hnone : ((runStep ⟨.standard, .empty⟩ SecondThoughts.step .start).play
        SecondThoughts.client .empty).1.isNone = true := by decide +kernel
    rw [hplay] at hnone
    cases hnone

end RestCase
