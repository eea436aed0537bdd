/-
# RestCase.Proofs.Run.Commuting — independent steps of the execution change places

Two steps are `Independent` when neither writes a variable that the other reads or writes.  With a
client that answers by the last request alone, a run is then told by its steps and their outcomes
(`tell`), without a journal (`Advances.tell_eq`), and the footprints of the steps say that two
independent neighbours of the execution may change places (`exists_tell_exchanged`): each has the
outcome that it had, the variables after both are the same, and so are all steps that follow.
`exists_exchanged` says it of the run of a case.
-/
import RestCase.Proofs.Run.Footprint

namespace RestCase

/-! ## Steps and their outcomes -/

/-- A step of a phase with what came of it. -/
structure Told where
  phase : Phase
  step : Step
  outcome : Outcome

namespace Told

/-- The entry of the step in a result. -/
def record (t : Told) : ExecutedStep :=
  ⟨t.phase, t.step.name, t.outcome.status, t.outcome.attempts, 0⟩

/-- The messages of the step. -/
def messages (t : Told) : List String := t.outcome.messages t.step.name t.step.retries

/-- The case is cut short by the step. -/
def cuts (t : Told) : Bool := t.phase.isCutBy t.outcome

end Told

/-- What an episode says of its step. -/
def Episode.told [Pattern.Engine] [Url.Names] {env : Environment} (e : Episode env) : Told :=
  ⟨e.phase, e.step, e.attempted.outcome⟩

/-- What a step comes to, beginning with some variables: its outcome, and the variables after it,
when every request has one answer (`Process.result?`). -/
def Step.effect [Pattern.Engine] [Url.Names] (env : Environment) (reply : Request → Reply)
    (s : Step) (ctx : Context) :
    Option (Outcome × Context) :=
  ((runStep env s { Progress.start with context := ctx }).result? reply).map fun t =>
    (t.outcome, t.context)

/-- What an agenda comes to, beginning with some variables: the steps that are carried out with
their outcomes (`Told`), and the variables at the end. -/
def tell [Pattern.Engine] [Url.Names] (env : Environment) (reply : Request → Reply) :
    Agenda → Context → Option (List Told × Context)
  | [], ctx => some ([], ctx)
  | (phase, s) :: r, ctx =>
    (s.effect env reply ctx).bind fun e =>
      (tell env reply (Agenda.shorten (phase.isCutBy e.1) r) e.2).map fun t =>
        (⟨phase, s, e.1⟩ :: t.1, t.2)
termination_by a => a.length
decreasing_by exact Nat.lt_succ_of_le (Agenda.length_shorten_le _ r)

section Telling

variable [Pattern.Engine] [Url.Names] {env : Environment} {reply : Request → Reply} {s : Step}
    {c d : Context}

/-- The effect of a step is that of its process in any state with these variables. -/
theorem effect_eq_iff {p : Progress} {e : Outcome × Context} :
    s.effect env reply p.context = some e ↔
      ∃ t, (runStep env s p).result? reply = some t ∧ (t.outcome, t.context) = e := by
  rw [Step.effect, Option.map_eq_some_iff]
  -- the footprint carries a result from one state to another one with the same variables
  constructor
  · rintro ⟨t, ht, rfl⟩
    obtain ⟨ws, last, -, hctx, hsame⟩ :=
      exists_writes_runStep (p := { Progress.start with context := p.context }) (q := p)
        (.refl _ _) ht
    exact ⟨_, hsame, congrArg (Prod.mk t.outcome) hctx.symm⟩
  · rintro ⟨t, ht, rfl⟩
    obtain ⟨ws, last, -, hctx, hsame⟩ :=
      exists_writes_runStep (p := p) (q := { Progress.start with context := p.context })
        (.refl _ _) ht
    exact ⟨_, hsame, congrArg (Prod.mk t.outcome) hctx.symm⟩

/-- **The footprint of an effect**: `exists_writes_runStep` for what a step comes to. -/
theorem exists_writes_effect {e : Outcome × Context} (hcd : Context.AgreeOn s.reads c d)
    (h : s.effect env reply c = some e) :
    ∃ ws, (∀ w ∈ ws, w.1 ∈ s.targets) ∧ e.2 = c.writeAll ws ∧
      s.effect env reply d = some (e.1, d.writeAll ws) := by
  obtain ⟨t, ht, rfl⟩ := Option.map_eq_some_iff.1 h
  obtain ⟨ws, last, htargets, hctx, hsame⟩ :=
    exists_writes_runStep (q := { Progress.start with context := d }) hcd ht
  refine ⟨ws, htargets, hctx, ?_⟩
  rw [Step.effect, hsame]
  rfl

theorem tell_cons {phase : Phase} {r : Agenda} {ctx : Context} {t : List Told × Context} :
    tell env reply ((phase, s) :: r) ctx = some t ↔
      ∃ e l, s.effect env reply ctx = some e ∧
        tell env reply (Agenda.shorten (phase.isCutBy e.1) r) e.2 = some (l, t.2) ∧
        t.1 = ⟨phase, s, e.1⟩ :: l := by
  rw [tell, Option.bind_eq_some_iff]
  constructor
  · rintro ⟨e, he, ht⟩
    obtain ⟨⟨l, d⟩, hl, rfl⟩ := Option.map_eq_some_iff.1 ht
    exact ⟨e, l, he, hl, rfl⟩
  · rintro ⟨e, l, he, hl, ht⟩
    refine ⟨e, he, ?_⟩
    rw [hl, Option.map_some, ← ht]

/-- **The telling of an agenda is that of its episodes** (`Advances`), which the client answers. -/
theorem Advances.tell_eq {client : Client} (hclient : client.Memoryless) {a : Agenda}
    {p q : Progress} {es : List (Episode env)} (h : Advances env a p es [] q) {j : Journal}
    (ha : client.Answers j (eventsOf es)) :
    tell env client.replyTo a p.context = some (es.map (·.told), q.context) := by
  generalize hb : ([] : Agenda) = b at h
  induction h generalizing j with
  | refl a p =>
    subst hb
    rw [tell]
    rfl
  | @step e r b es q _ ih =>
    rw [eventsOf_cons, answers_append] at ha
    have heffect : e.step.effect env client.replyTo e.before.context =
        some (e.attempted.outcome, e.after.context) :=
      effect_eq_iff.2 ⟨_, (course_runStep_iff.2 e.carried).result?_eq hclient ha.1, rfl⟩
    exact tell_cons.2 ⟨_, _, heffect, ih ha.2 hb, rfl⟩

/-- An agenda that can be told can be run. -/
theorem exists_result?_of_tell {a : Agenda} {p : Progress} {t : List Told × Context}
    (h : tell env reply a p.context = some t) :
    ∃ q, (runAgenda env a p).result? reply = some q := by
  induction a, p using runAgenda.induct generalizing t with
  | case1 p =>
    rw [runAgenda]
    exact ⟨p, rfl⟩
  | case2 phase s r p ih =>
    obtain ⟨e, l, he, hl, -⟩ := tell_cons.1 h
    obtain ⟨t, ht, rfl⟩ := effect_eq_iff.1 he
    rw [runAgenda, Process.result?_bind, ht]
    exact ih t hl

end Telling

/-! ## Independent steps -/

/-- Neither step writes a variable that the other one reads or writes (`Step.reads`,
`Step.targets`). -/
structure Step.Independent (a b : Step) : Prop where
  targets : ∀ name ∈ a.targets, name ∉ b.targets
  left_reads : ∀ name ∈ b.targets, name ∉ a.reads
  right_reads : ∀ name ∈ a.targets, name ∉ b.reads

/-- Two tellings (`Told`) are the same, but that `a` and `b`, neighbours in the execution, have
changed places; or the case was cut short before it came to them, and they are the same. -/
inductive Exchanged (a b : Step) : List Told → List Told → Prop
  | cut {l : List Told} : (∃ t ∈ l, t.cuts = true) → Exchanged a b l l
  | swapped (front back : List Told) (o o' : Outcome) :
      Exchanged a b (front ++ ⟨.execution, a, o⟩ :: ⟨.execution, b, o'⟩ :: back)
        (front ++ ⟨.execution, b, o'⟩ :: ⟨.execution, a, o⟩ :: back)

namespace Exchanged

variable {a b : Step} {l l' : List Told}

theorem cons (t : Told) (h : Exchanged a b l l') : Exchanged a b (t :: l) (t :: l') := by
  cases h with
  | cut h =>
    obtain ⟨u, hu, hcut⟩ := h
    exact .cut ⟨u, List.mem_cons_of_mem t hu, hcut⟩
  | swapped front back o o' => exact .swapped (t :: front) back o o'

theorem perm (h : Exchanged a b l l') : l.Perm l' := by
  cases h with
  | cut _ => exact .refl l
  | swapped front back o o' => exact (List.Perm.swap _ _ back).append_left front

/-- The cleanup is the same. -/
theorem filter_cleanup (h : Exchanged a b l l') :
    l.filter (·.phase = .cleanup) = l'.filter (·.phase = .cleanup) := by
  cases h with
  | cut _ => rfl
  | swapped front back o o' => simp [List.filter_append]

end Exchanged

section Exchange

variable {env : Environment} {reply : Request → Reply} {a b : Step} {ctx : Context}

/-- **Independent steps commute** (`Step.Independent`): one after the other, in either order, each
has the same outcome, and the variables after both are the same. -/
theorem effect_comm [Pattern.Engine] [Url.Names] (h : a.Independent b) {o o' : Outcome}
    {c d : Context}
    (ha : a.effect env reply ctx = some (o, c)) (hb : b.effect env reply c = some (o', d)) :
    ∃ c', b.effect env reply ctx = some (o', c') ∧ a.effect env reply c' = some (o, d) := by
  -- `b` reads nothing that `a` has written, so it does the same before `a`
  obtain ⟨ws, hws, hc, -⟩ := exists_writes_effect (.refl _ ctx) ha
  have hagree : Context.AgreeOn b.reads ctx c := by
    rw [show c = ctx.writeAll ws from hc]
    exact Context.agreeOn_writeAll (fun w hw => h.right_reads w.1 (hws w hw)) ctx
  obtain ⟨ws', hws', hd, hb'⟩ := exists_writes_effect hagree.symm hb
  -- and `a` reads nothing that `b` has written
  have hagree' : Context.AgreeOn a.reads ctx (ctx.writeAll ws') :=
    Context.agreeOn_writeAll (fun w hw => h.left_reads w.1 (hws' w hw)) ctx
  obtain ⟨vs, hvs, hc', ha'⟩ := exists_writes_effect hagree' ha
  refine ⟨ctx.writeAll ws', hb', ?_⟩
  have hcomm : (ctx.writeAll ws').writeAll vs = d := by
    have hdisjoint : ∀ w ∈ ws', ∀ w' ∈ vs, w.1 ≠ w'.1 := by
      intro w hw w' hw' heq
      exact h.targets w'.1 (hvs w' hw') (heq ▸ hws' w hw)
    rw [Context.writeAll_comm ctx hdisjoint, ← show c = ctx.writeAll vs from hc']
    exact hd.symm
  rw [ha', hcomm]

/-- A case that is cut short loses both steps, in whatever order they come. -/
theorem Agenda.shorten_true_swap (front back : Agenda) (a b : Step) :
    Agenda.shorten true (front ++ (.execution, a) :: (.execution, b) :: back) =
      Agenda.shorten true (front ++ (.execution, b) :: (.execution, a) :: back) := by
  simp [Agenda.shorten, List.filter_append]

/-- **Independent neighbours of the execution change places** behind any steps and before any
steps: the telling of the agenda is `Exchanged` and the same otherwise, and so are the variables
at the end. -/
theorem exists_tell_exchanged [Pattern.Engine] [Url.Names] (h : a.Independent b)
    {front back : Agenda} {t : List Told × Context}
    (ht : tell env reply (front ++ (.execution, a) :: (.execution, b) :: back) ctx = some t) :
    ∃ l, tell env reply (front ++ (.execution, b) :: (.execution, a) :: back) ctx =
        some (l, t.2) ∧ Exchanged a b t.1 l := by
  induction front generalizing ctx t with
  | nil =>
    -- nothing in the execution cuts the case, so one step follows the other in both orders
    obtain ⟨⟨o, c⟩, l, ha, hl, ht'⟩ := tell_cons.1 ht
    obtain ⟨⟨o', d⟩, k, hb, hk, hl'⟩ := tell_cons.1 hl
    obtain ⟨c', hb', ha'⟩ := effect_comm h ha hb
    refine ⟨⟨.execution, b, o'⟩ :: ⟨.execution, a, o⟩ :: k, ?_, ?_⟩
    · refine tell_cons.2 ⟨_, ⟨.execution, a, o⟩ :: k, hb', ?_, rfl⟩
      exact tell_cons.2 ⟨_, k, ha', hk, rfl⟩
    · rw [ht', show l = _ from hl']
      exact .swapped [] k o o'
  | cons x front ih =>
    obtain ⟨phase, s⟩ := x
    rw [List.cons_append] at ht ⊢
    obtain ⟨e, l, he, hl, ht'⟩ := tell_cons.1 ht
    cases hcut : phase.isCutBy e.1 with
    | false =>
      rw [hcut, Agenda.shorten_false] at hl
      obtain ⟨k, hk, hex⟩ := ih hl
      refine ⟨⟨phase, s, e.1⟩ :: k, ?_, ?_⟩
      · refine tell_cons.2 ⟨e, k, he, ?_, rfl⟩
        rw [hcut, Agenda.shorten_false]
        exact hk
      · rw [ht']
        exact hex.cons _
    | true =>
      refine ⟨t.1, ?_, .cut ⟨⟨phase, s, e.1⟩, ?_, hcut⟩⟩
      · refine tell_cons.2 ⟨e, l, he, ?_, ht'⟩
        rw [hcut, Agenda.shorten_true_swap, ← hcut]
        exact hl
      · rw [ht']
        exact List.mem_cons_self

end Exchange

/-! ## Runs -/

/-- The result says what the steps with their outcomes come to. -/
structure CaseResult.Tells (r : CaseResult) (l : List Told) : Prop where
  executed_eq : r.executed = l.map (·.record)
  failures_eq : r.failures = (l.filter (·.phase ≠ .cleanup)).flatMap (·.messages)
  cleanupWarnings_eq : r.cleanupWarnings = (l.filter (·.phase = .cleanup)).flatMap (·.messages)

section Runs

variable {env : Environment} {client : Client} {c : TestCase} {j j' : Journal} {r : CaseResult}

/-- A result tells the episodes of its run. -/
theorem History.tells [Pattern.Engine] [Url.Names] (h : History env client c j r j') :
    r.Tells (h.episodes.map (·.told)) where
  executed_eq := by
    rw [h.executed_eq, List.map_map]
    rfl
  failures_eq := by
    rw [h.failures_eq, List.filter_map, List.flatMap_map]
    rfl
  cleanupWarnings_eq := by
    rw [h.cleanupWarnings_eq, List.filter_map, List.flatMap_map]
    rfl

theorem History.tell_eq [Pattern.Engine] [Url.Names] (hclient : client.Memoryless)
    (h : History env client c j r j') :
    tell env client.replyTo c.agenda .empty = some (h.episodes.map (·.told), r.context) := by
  rw [h.context_eq]
  exact h.advances.tell_eq hclient h.answered

/-- A case whose agenda can be told has a run that returns. -/
theorem exists_history_of_tell [Pattern.Engine] [Url.Names] (hclient : client.Memoryless)
    {t : List Told × Context} (h : tell env client.replyTo c.agenda .empty = some t) (j : Journal) :
    ∃ r j', (runCase env c).play client j = (some r, j') ∧
      ∃ history : History env client c j r j',
        history.episodes.map (·.told) = t.1 ∧ r.context = t.2 := by
  obtain ⟨q, hq⟩ := exists_result?_of_tell (p := .start) h
  have hresult : ((runCase env c).play client j).1 = some (q.result c) := by
    rw [Process.play_fst_eq hclient, runCase_eq, Process.result?_bind, hq]
    rfl
  refine ⟨q.result c, _, Prod.ext hresult rfl, ?_⟩
  obtain ⟨history⟩ := play_runCase_iff.1 (Prod.ext hresult rfl)
  have htell := (history.tell_eq hclient).symm.trans h
  obtain rfl := Option.some.inj htell
  exact ⟨history, rfl, rfl⟩

/-- Neighbours of the execution are neighbours on the agenda. -/
theorem TestCase.exists_agenda_eq {before after : List Step} {a b : Step}
    (hc : c.execution = before ++ a :: b :: after) :
    ∃ front back : Agenda,
      c.agenda = front ++ (.execution, a) :: (.execution, b) :: back ∧
      { c with execution := before ++ b :: a :: after }.agenda =
        front ++ (.execution, b) :: (.execution, a) :: back := by
  refine ⟨c.entriesOf [.preconditions, .setup] ++ Phase.entries .execution before,
    Phase.entries .execution after ++ Phase.entries .cleanup c.cleanup, ?_, ?_⟩
  · simp [TestCase.agenda, TestCase.entriesOf, Phase.all, TestCase.steps, Phase.entries, hc]
  · simp [TestCase.agenda, TestCase.entriesOf, Phase.all, TestCase.steps, Phase.entries]

/-- **Independent steps of the execution commute** (`Step.Independent`).  With a client that
answers by the last request alone (`Memoryless`), a run with two independent neighbours of the
execution exchanged returns if the run with the two in place does.  It has the same verdict, the
same variables with the same origins and the same warnings; and its steps have the records and the
messages that they had, the two in each other's places (`Exchanged`). -/
theorem exists_exchanged [Pattern.Engine] [Url.Names] (hclient : client.Memoryless)
    {before after : List Step} {a b : Step}
    (hc : c.execution = before ++ a :: b :: after) (hab : a.Independent b)
    (h : (runCase env c).play client j = (some r, j')) :
    ∃ r₂ j₂, (runCase env { c with execution := before ++ b :: a :: after }).play client j =
        (some r₂, j₂) ∧
      r₂.passed = r.passed ∧ r₂.context = r.context ∧ r₂.cleanupWarnings = r.cleanupWarnings ∧
      ∃ (history : History env client c j r j')
        (history₂ : History env client { c with execution := before ++ b :: a :: after } j r₂ j₂),
        r.Tells (history.episodes.map (·.told)) ∧
        r₂.Tells (history₂.episodes.map (·.told)) ∧
        Exchanged a b (history.episodes.map (·.told)) (history₂.episodes.map (·.told)) := by
  obtain ⟨history⟩ := play_runCase_iff.1 h
  obtain ⟨front, back, hagenda, hagenda₂⟩ := TestCase.exists_agenda_eq hc
  have htell := history.tell_eq hclient
  rw [hagenda] at htell
  obtain ⟨l, htell₂, hex⟩ := exists_tell_exchanged hab htell
  rw [← hagenda₂] at htell₂
  obtain ⟨r₂, j₂, h₂, history₂, rfl, hcontext⟩ := exists_history_of_tell hclient htell₂ j
  have hpassed : r₂.passed = true ↔ r.passed = true := by
    -- the verdict is that there are no failures, and those are the same up to their order
    have hperm : r.failures.Perm r₂.failures := by
      rw [history.tells.failures_eq, history₂.tells.failures_eq]
      exact (hex.perm.filter _).flatMap_right _
    rw [history.passed_iff, history₂.passed_iff]
    constructor
    · intro hnil
      exact List.perm_nil.1 (hnil ▸ hperm)
    · intro hnil
      exact List.nil_perm.1 (hnil ▸ hperm)
  refine ⟨r₂, j₂, h₂, Bool.eq_iff_iff.2 hpassed, hcontext, ?_, history, history₂, history.tells,
    history₂.tells, hex⟩
  rw [history.tells.cleanupWarnings_eq, history₂.tells.cleanupWarnings_eq, hex.filter_cleanup]

end Runs

namespace TwoOrders

/-- A step that takes a variable from a response with the status 200. -/
def step (name endpoint target : String) : Step :=
  { Step.plain name (.plain .get endpoint) with
    verification := some ⟨some 200, .empty, [], [⟨"$[0]", target, none⟩]⟩ }

/-- A step that reads a variable and fails. -/
def account : Step := step "account" "x://h/account/$\x7buser\x7d" "account"

/-- A step that writes another variable. -/
def token : Step := step "token" "x://h/token" "token"

/-- What comes before the two writes what one of them reads. -/
def before : List Step := [step "user" "x://h/user" "user"]

/-- What comes after the two reads what the other one writes. -/
def after : List Step := [step "order" "x://h/order/$\x7btoken\x7d" "order"]

/-- A case in which the two stand side by side. -/
def case : TestCase := ⟨"orders", none, [], [], before ++ account :: token :: after, []⟩

/-- A client that knows no account. -/
def client : Client := fun sent =>
  match sent.getLast?.map Request.url with
  | some "x://h/account/7" => .ok ⟨404, [], "[]"⟩
  | some "x://h/order/7" => .ok ⟨200, [], "[8]"⟩
  | _ => .ok ⟨200, [], "[7]"⟩

end TwoOrders

/-- A step that fails and a step that writes change places, and the steps around them do not notice
it. -/
theorem exists_exchanged_twoOrders :
    TwoOrders.client.Memoryless ∧ TwoOrders.account.Independent TwoOrders.token ∧
    ∃ r j' r₂ j₂,
      (runCase ⟨.standard, .empty⟩ TwoOrders.case).play TwoOrders.client .empty = (some r, j') ∧
      r.executed.map (·.name) = ["user", "account", "token", "order"] ∧
      r.executed.map (·.status) = [.passed, .failed, .passed, .passed] ∧
      (runCase ⟨.standard, .empty⟩
          { TwoOrders.case with
            execution := TwoOrders.before ++
              TwoOrders.token :: TwoOrders.account :: TwoOrders.after }).play
          TwoOrders.client .empty = (some r₂, j₂) ∧
      r₂.passed = r.passed ∧ r₂.context = r.context := by
  have hclient : TwoOrders.client.Memoryless := by
    intro sent sent' r
    simp [TwoOrders.client]
  have hindependent : TwoOrders.account.Independent TwoOrders.token :=
    ⟨by decide +kernel, by decide +kernel, by decide +kernel⟩
  have hfacts : (((runCase ⟨.standard, .empty⟩ TwoOrders.case).play TwoOrders.client
      .empty).1.map fun r => (r.executed.map (·.name), r.executed.map (·.status))) =
      some (["user", "account", "token", "order"], [.passed, .failed, .passed, .passed]) := by
    decide +kernel
  obtain ⟨r, hr, heq⟩ := Option.map_eq_some_iff.1 hfacts
  obtain ⟨hnames, hstatus⟩ := Prod.mk.inj heq
  have hneighbours : TwoOrders.case.execution =
      TwoOrders.before ++ TwoOrders.account :: TwoOrders.token :: TwoOrders.after := rfl
  obtain ⟨r₂, j₂, h₂, hpassed, hcontext, -⟩ :=
    exists_exchanged hclient hneighbours hindependent (Prod.ext hr rfl)
  exact ⟨hclient, hindependent, r, _, r₂, j₂, Prod.ext hr rfl, hnames, hstatus, h₂, hpassed,
    hcontext⟩

end RestCase
