/-
# RestCase.Proofs.Run.Anonymity — credentials have no part in a result

Who a request authenticates as is looked up among the users when the request is prepared, and from
then on only the client can see it: without users a request is prepared as with them, but for the
credentials (`prepare_empty`).  Leaving all credentials out of a process therefore gives the process
of the same case without any users (`runCase_anonymous`), and a client that pays no heed to
credentials plays the two alike (`play_anonymous`).

Two tables of users are compared through the empty one: with either of them a run is the run that
nobody authenticates for, its credentials put back in.  So whatever users there are, the result is
the same, and so is every request up to its credentials (`play_runCase_of_users`).
-/
import RestCase.Proofs.Run.Agenda

namespace RestCase

/-! ## Leaving credentials out -/

/-- The journal without what its requests authenticate with (`Request.anonymous`). -/
def Journal.anonymous (j : Journal) : Journal :=
  { j with requests := j.requests.map Request.anonymous }

/-- The process that does the same without authenticating. -/
def Process.anonymous {α : Type} : Process α → Process α
  | .done a => .done a
  | .broken => .broken
  | .nap t p => .nap t p.anonymous
  | .send r k => .send r.anonymous fun reply => (k reply).anonymous

/-- The same settings without any users. -/
def Environment.anonymous (env : Environment) : Environment := { env with users := .empty }

/-- The client answers alike whatever the requests authenticate with: as to `Request.anonymous`. -/
def Client.IgnoresCredentials (client : Client) : Prop :=
  ∀ sent sent' : List Request,
    sent.map Request.anonymous = sent'.map Request.anonymous → client sent = client sent'

theorem Client.IgnoresCredentials.reply_eq {client : Client} (h : client.IgnoresCredentials)
    (sent : List Request) : client (sent.map Request.anonymous) = client sent := by
  apply h
  rw [List.map_map]
  rfl

namespace Process

variable {α β : Type}

theorem anonymous_bind (p : Process α) (f : α → Process β) :
    (p.bind f).anonymous = p.anonymous.bind fun a => (f a).anonymous := by
  induction p with
  | done a => rfl
  | broken => rfl
  | nap t p ih => exact congrArg (nap t) ih
  | send r k ih => exact congrArg (send r.anonymous) (funext ih)

/-- Judging a value authenticates nobody. -/
theorem anonymous_ofExcept {ε : Type} (x : Except ε α) : (ofExcept x).anonymous = ofExcept x := by
  cases x <;> rfl

/-- **A client that pays no heed to credentials plays a process as it plays the process without
them** (`Process.anonymous`): the result is the same, and the journal differs in the credentials
only. -/
theorem play_anonymous {client : Client} (h : client.IgnoresCredentials) (p : Process α)
    (j : Journal) :
    p.anonymous.play client j.anonymous =
      ((p.play client j).1, (p.play client j).2.anonymous) := by
  induction p generalizing j with
  | done a => rfl
  | broken => rfl
  | nap t p ih => exact ih { j with naps := j.naps ++ [t] }
  | send r k ih =>
    have hsent : j.anonymous.requests ++ [r.anonymous] =
        (j.requests ++ [r]).map Request.anonymous := by
      simp [Journal.anonymous]
    -- the journals stay in step, so the client sees the same requests and gives the same reply
    rw [anonymous, play, play, hsent, h.reply_eq]
    exact ih _ { j with requests := j.requests ++ [r] }

end Process

/-! ## Runs without users -/

/-- Nobody is found where there are no users. -/
theorem credentialsOf?_empty (id : String) : credentialsOf? .empty id = none := rfl

/-- Without users a request is prepared by `RequestSpec.prepare` as with them, but for the
credentials; in particular what keeps it from being prepared is the same. -/
theorem prepare_empty [Url.Names] (settings : Settings) (users : Table User) (r : RequestSpec)
    (ctx : Context) :
    r.prepare settings .empty ctx = (r.prepare settings users ctx).map Request.anonymous := by
  have hnobody : r.user.bind (credentialsOf? .empty) = none := by
    cases r.user with
    | none => rfl
    | some id => exact credentialsOf?_empty id
  unfold RequestSpec.prepare
  cases settings.resolve (Template.interpolate ctx r.endpoint) with
  | error fault => rfl
  | ok url =>
    rw [hnobody]
    rfl

/-- A pause in front of a process authenticates nobody. -/
theorem anonymous_pause {p q : Process Attempted} (h : p.anonymous = q) (pause : Option Nat) :
    (match pause with
      | some time => Process.nap time p
      | none => p).anonymous =
      match pause with
      | some time => Process.nap time q
      | none => q := by
  cases pause with
  | none => exact h
  | some time => exact congrArg (Process.nap time) h

/-- Judging a response authenticates nobody; only another attempt might. -/
theorem anonymous_judge [Pattern.Engine] (s : Step) (ctx : Context) (r : Response) (n : Nat)
    {again again' : List String → Process Attempted}
    (h : ∀ found, (again found).anonymous = again' found) :
    ((Process.ofExcept (checkFailures s ctx r)).bind fun found =>
      if found.isEmpty then
        (Process.ofExcept (extractAll s ctx r)).bind fun ctx' =>
          .done ⟨.passed n, ctx', some r⟩
      else again found).anonymous =
    (Process.ofExcept (checkFailures s ctx r)).bind fun found =>
      if found.isEmpty then
        (Process.ofExcept (extractAll s ctx r)).bind fun ctx' =>
          .done ⟨.passed n, ctx', some r⟩
      else again' found := by
  rw [Process.anonymous_bind, Process.anonymous_ofExcept]
  congr 1
  funext found
  by_cases hfound : found.isEmpty = true
  · rw [if_pos hfound, if_pos hfound, Process.anonymous_bind, Process.anonymous_ofExcept]
    rfl
  · rw [if_neg hfound, if_neg hfound]
    exact h found

/-- The attempts of a step do not look at what its request authenticates with. -/
theorem attempt_anonymous [Pattern.Engine] (s : Step) (request : Request) (ctx : Context)
    (left n : Nat) (failures : List String) (last : Option Response) :
    (attempt s request ctx left n failures last).anonymous =
      attempt s request.anonymous ctx left n failures last := by
  induction left generalizing n failures last with
  | zero => rfl
  | succ left ih =>
    rw [attempt, attempt]
    refine anonymous_pause ?_ _
    rw [Process.anonymous]
    congr 1
    funext reply
    -- one more attempt is the one that the induction speaks of; all else ends here
    cases reply with
    | ok response => exact anonymous_judge s ctx response (n + 1) fun found => ih _ found _
    | error fault =>
      by_cases hleft : left = 0
      · simp only [hleft, if_true]
        rfl
      · simp only [hleft, if_false]
        exact ih _ _ _

theorem runStep_anonymous [Pattern.Engine] [Url.Names] (env : Environment) (s : Step)
    (p : Progress) :
    (runStep env s p).anonymous = runStep env.anonymous s p := by
  have hprepare : s.request.prepare env.anonymous.settings env.anonymous.users p.context =
      (s.request.prepare env.settings env.users p.context).map Request.anonymous :=
    prepare_empty env.settings env.users s.request p.context
  unfold runStep
  split
  · rw [hprepare]
    cases s.request.prepare env.settings env.users p.context with
    | error fault => rfl
    | ok request => exact attempt_anonymous s request p.context _ 0 [] p.lastResponse
  · rfl

theorem runAgenda_anonymous [Pattern.Engine] [Url.Names] (env : Environment) (a : Agenda)
    (p : Progress) :
    (runAgenda env a p).anonymous = runAgenda env.anonymous a p := by
  induction a, p using runAgenda.induct with
  | case1 p =>
    rw [runAgenda, runAgenda]
    rfl
  | case2 phase s r p ih =>
    rw [runAgenda, runAgenda, Process.anonymous_bind, runStep_anonymous]
    congr 1
    funext t
    exact ih t

/-- **Leaving the credentials out of a run is running the case without users**
(`Environment.anonymous`). -/
theorem runCase_anonymous [Pattern.Engine] [Url.Names] (env : Environment) (c : TestCase) :
    (runCase env c).anonymous = runCase env.anonymous c := by
  rw [runCase_eq, runCase_eq, Process.anonymous_bind, runAgenda_anonymous]
  rfl

/-- A run with users is the run without users, up to credentials. -/
theorem play_runCase_anonymous [Pattern.Engine] [Url.Names] {client : Client}
    (h : client.IgnoresCredentials) (env : Environment) (c : TestCase) (j : Journal) :
    (runCase env.anonymous c).play client j.anonymous =
      (((runCase env c).play client j).1, ((runCase env c).play client j).2.anonymous) := by
  rw [← runCase_anonymous]
  exact Process.play_anonymous h (runCase env c) j

/-! ## Runs with one or another table of users -/

/-- **Credentials never reach a result.**  With a client that pays no heed to credentials
(`IgnoresCredentials`), two runs of a case that differ in the users only return both or neither,
with one and the same result, whole and not only in its verdict; their pauses are the same, and so
are their requests, one by one, but for the credentials (`Journal.anonymous`). -/
theorem play_runCase_of_users [Pattern.Engine] [Url.Names] {client : Client}
    (h : client.IgnoresCredentials)
    (settings : Settings) (users users' : Table User) (c : TestCase) (j : Journal) :
    ((runCase ⟨settings, users⟩ c).play client j).1 =
        ((runCase ⟨settings, users'⟩ c).play client j).1 ∧
      ((runCase ⟨settings, users⟩ c).play client j).2.requests.map Request.anonymous =
        ((runCase ⟨settings, users'⟩ c).play client j).2.requests.map Request.anonymous ∧
      ((runCase ⟨settings, users⟩ c).play client j).2.naps =
        ((runCase ⟨settings, users'⟩ c).play client j).2.naps := by
  have hleft := play_runCase_anonymous h ⟨settings, users⟩ c j
  have hright := play_runCase_anonymous h ⟨settings, users'⟩ c j
  -- both are the run without users
  obtain ⟨hresult, hjournal⟩ := Prod.mk.inj (hleft.symm.trans hright)
  obtain ⟨hrequests, hnaps⟩ := Journal.mk.inj hjournal
  exact ⟨hresult, hrequests, hnaps⟩

namespace TwoTeams

/-- A user with a password. -/
def withPassword (username password : String) : User :=
  ⟨some "basic", some username, some password, none, none, none⟩

/-- A user with a token. -/
def withToken (token : String) : User := ⟨some "bearer", none, none, some token, none, none⟩

/-- The users of one team. -/
def first : Table User :=
  Table.ofList [("admin", withPassword "ann" "secret"), ("guest", withToken "abc")]

/-- The users of another team, of which one has no token. -/
def second : Table User :=
  Table.ofList [("admin", withToken "xyz"),
    ("guest", ⟨some "bearer", none, none, none, none, none⟩)]

/-- A step that a user takes. -/
def step (name user : String) (status retries : Nat) (rules : List ExtractionRule) : Step :=
  { Step.plain name { RequestSpec.plain .get ("x://h/" ++ name) with user := some user } with
    verification := some ⟨some status, .empty, [], rules⟩
    retries := retries
    retryInterval := 5 }

/-- A case that logs in, fails twice to read an order, and has an unknown user clean up. -/
def case : TestCase :=
  ⟨"teams", none, [], [step "login" "admin" 200 0 [⟨"$.token", "token", none⟩]],
    [step "order" "guest" 200 1 []], [step "logout" "nobody" 200 0 []]⟩

/-- A client that answers by the URL of the last request. -/
def client : Client := fun sent =>
  match sent.getLast?.map Request.url with
  | some "x://h/login" => .ok ⟨200, [], "\x7b\"token\": 7\x7d"⟩
  | some "x://h/order" => .ok ⟨403, [], ""⟩
  | _ => .error ["no route"]

end TwoTeams

/-- Two teams get one result, with failures, warnings and a variable, from requests with different
credentials. -/
theorem play_runCase_of_users_twoTeams :
    TwoTeams.client.IgnoresCredentials ∧
      ((runCase ⟨.standard, TwoTeams.first⟩ TwoTeams.case).play TwoTeams.client
        .empty).2.requests.map Request.credentials =
          [some (.basic "ann" "secret"), some (.bearer "abc"), some (.bearer "abc"), none] ∧
      ((runCase ⟨.standard, TwoTeams.second⟩ TwoTeams.case).play TwoTeams.client
        .empty).2.requests.map Request.credentials =
          [some (.bearer "xyz"), none, none, none] ∧
      ∃ r, ((runCase ⟨.standard, TwoTeams.first⟩ TwoTeams.case).play TwoTeams.client .empty).1 =
          some r ∧
        ((runCase ⟨.standard, TwoTeams.second⟩ TwoTeams.case).play TwoTeams.client .empty).1 =
          some r ∧
        r.passed = false ∧ r.failures.length = 1 ∧ r.cleanupWarnings.length = 1 ∧
        r.context.size = 1 := by
  have hclient : TwoTeams.client.IgnoresCredentials := by
    intro sent sent' h
    have hurl : ∀ l : List Request, l.getLast?.map Request.url =
        ((l.map Request.anonymous).getLast?).map Request.url := by
      intro l
      rw [List.getLast?_map, Option.map_map]
      rfl
    unfold TwoTeams.client
    rw [hurl sent, hurl sent', h]
  have hfacts : (((runCase ⟨.standard, TwoTeams.first⟩ TwoTeams.case).play TwoTeams.client
      .empty).1.map fun r => (r.passed, r.failures.length, r.cleanupWarnings.length,
        r.context.size)) = some (false, 1, 1, 1) := by decide +kernel
  obtain ⟨r, hr, heq⟩ := Option.map_eq_some_iff.1 hfacts
  simp only [Prod.mk.injEq] at heq
  have hsame := (play_runCase_of_users hclient .standard TwoTeams.first TwoTeams.second
    TwoTeams.case .empty).1
  exact ⟨hclient, by decide +kernel, by decide +kernel, r, hr, hsame ▸ hr, heq⟩

end RestCase
