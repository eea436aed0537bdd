/-
# RestCase.Proofs.Run.Footprint — what a step reads and what it writes

A step reads the variables that its texts have placeholders for (`Step.reads`) and writes the
targets of its rules (`Step.targets`).  That is its whole footprint: in two contexts that agree on
what it reads (`Context.AgreeOn`), a step has the same outcome and writes the same values, and
everything else stays as it was (`exists_writes_runStep`).

Each part of a step has its own lemma here (the condition, the request, the checks, the rules), and
the attempts and the step are put together from these.  What rules write does not depend on the
variables (`extract_eq_writes`), and writes of different variables change places (`writeAll_comm`).
-/
import Mathlib.Data.List.Basic
import RestCase.Proofs.Process.Memoryless
import RestCase.Proofs.Run.Provenance
import RestCase.Proofs.Template.Filling

namespace RestCase

/-! ## Writes -/

/-- A value for a variable, with its origin, as `Context.set` takes them. -/
abbrev Write := String × Tracked

namespace Context

/-- The context after writes, one after the other with `Context.set`. -/
def writeAll (ctx : Context) (ws : List Write) : Context :=
  ws.foldl (fun c w => c.set w.1 w.2.value (some w.2.origin)) ctx

theorem writeAll_cons (ctx : Context) (w : Write) (ws : List Write) :
    ctx.writeAll (w :: ws) = (ctx.set w.1 w.2.value (some w.2.origin)).writeAll ws := rfl

theorem set_comm (ctx : Context) {k k' : String} (hne : k ≠ k') (v v' : Json)
    (o o' : Option Origin) :
    (ctx.set k v o).set k' v' o' = (ctx.set k' v' o').set k v o := by
  refine ext_lookup ?_ ?_
  · intro name
    by_cases h : name = k
    · subst h
      simp [hne]
    · simp [h]
  · intro name
    by_cases h : name = k
    · subst h
      simp [hne]
    · simp [h]

theorem writeAll_set_comm (ctx : Context) {k : String} {ws : List Write}
    (h : ∀ w ∈ ws, w.1 ≠ k) (v : Json) (o : Option Origin) :
    (ctx.set k v o).writeAll ws = (ctx.writeAll ws).set k v o := by
  induction ws generalizing ctx with
  | nil => rfl
  | cons w ws ih =>
    have hw : k ≠ w.1 := Ne.symm (h w List.mem_cons_self)
    rw [writeAll_cons, set_comm ctx hw, ih _ fun x hx => h x (List.mem_cons_of_mem w hx)]
    rfl

/-- **Writes of different variables change places** in `writeAll`. -/
theorem writeAll_comm (ctx : Context) {ws ws' : List Write}
    (h : ∀ w ∈ ws, ∀ w' ∈ ws', w.1 ≠ w'.1) :
    (ctx.writeAll ws).writeAll ws' = (ctx.writeAll ws').writeAll ws := by
  induction ws generalizing ctx with
  | nil => rfl
  | cons w ws ih =>
    have hw : ∀ w' ∈ ws', w'.1 ≠ w.1 := fun w' hw' => Ne.symm (h w List.mem_cons_self w' hw')
    rw [writeAll_cons, writeAll_cons, ih _ fun x hx => h x (List.mem_cons_of_mem w hx),
      writeAll_set_comm ctx hw]

/-- What is seen of one variable does not change with writes of others. -/
theorem writeAll_of_ne {α : Type} (see : Context → α) {k : String}
    (hsee : ∀ (c : Context) (w : Write), w.1 ≠ k →
      see (c.set w.1 w.2.value (some w.2.origin)) = see c)
    (ctx : Context) {ws : List Write} (h : ∀ w ∈ ws, w.1 ≠ k) :
    see (ctx.writeAll ws) = see ctx := by
  induction ws generalizing ctx with
  | nil => rfl
  | cons w ws ih =>
    rw [writeAll_cons, ih _ fun x hx => h x (List.mem_cons_of_mem w hx)]
    exact hsee ctx w (h w List.mem_cons_self)

theorem get?_writeAll_of_ne (ctx : Context) {k : String} {ws : List Write}
    (h : ∀ w ∈ ws, w.1 ≠ k) : (ctx.writeAll ws).get? k = ctx.get? k := by
  refine writeAll_of_ne (fun c => c.get? k) (fun c w hw => ?_) ctx h
  rw [get?_set, if_neg hw.symm]

theorem tracked?_writeAll_of_ne (ctx : Context) {k : String} {ws : List Write}
    (h : ∀ w ∈ ws, w.1 ≠ k) : (ctx.writeAll ws).tracked? k = ctx.tracked? k := by
  refine writeAll_of_ne (fun c => c.tracked? k) (fun c w hw => ?_) ctx h
  rw [tracked?_set, if_neg hw.symm]

/-- Two contexts have the same values under some names. -/
def AgreeOn (names : List String) (c d : Context) : Prop :=
  ∀ name ∈ names, c.get? name = d.get? name

theorem AgreeOn.refl (names : List String) (c : Context) : AgreeOn names c c := fun _ _ => rfl

theorem AgreeOn.mono {names names' : List String} {c d : Context} (h : AgreeOn names c d)
    (hsub : names' ⊆ names) : AgreeOn names' c d :=
  fun name hname => h name (hsub hname)

theorem AgreeOn.symm {names : List String} {c d : Context} (h : AgreeOn names c d) :
    AgreeOn names d c :=
  fun name hname => (h name hname).symm

/-- Writes of other variables are not noticed. -/
theorem agreeOn_writeAll {names : List String} {ws : List Write}
    (h : ∀ w ∈ ws, w.1 ∉ names) (ctx : Context) : AgreeOn names ctx (ctx.writeAll ws) := by
  intro name hname
  refine (get?_writeAll_of_ne ctx ?_).symm
  rintro w hw rfl
  exact h w hw hname

end Context

/-! ## Names that a step reads -/

/-- The names in the placeholders of a request (`Template.names`): of its endpoint, its headers
and its payload. -/
def RequestSpec.reads (r : RequestSpec) : List String :=
  Template.names r.endpoint ++ r.headers.entries.flatMap (fun h => Template.names h.2) ++
    r.payload.toList.flatMap Template.names

/-- The names in the placeholders of the expected value, if it is a text. -/
def PathAssertion.reads (a : PathAssertion) : List String :=
  match a.expected with
  | .string s => Template.names s
  | _ => []

/-- The names in the placeholders of the expected headers and the expected values. -/
def Verification.reads (v : Verification) : List String :=
  v.headers.entries.flatMap (fun h => Template.names h.2) ++ v.assertions.flatMap (·.reads)

namespace Step

/-- The names in the placeholders of a step (`Template.names`): in its condition, in its request
and in what it expects. -/
def reads (s : Step) : List String :=
  s.condition.toList.flatMap Template.names ++ s.request.reads ++
    s.verification.toList.flatMap Verification.reads

/-- The variables that the rules of a step write (`ExtractionRule.target`). -/
def targets (s : Step) : List String := s.extractions.map (·.target)

end Step

/-! ## The condition and the request -/

section Reading

variable {c d : Context}

theorem Step.isWanted_congr {s : Step} (h : Context.AgreeOn s.reads c d) :
    s.isWanted c = s.isWanted d := by
  unfold Step.isWanted
  cases hs : s.condition with
  | none => rfl
  | some expression =>
    have hsame : Template.interpolate c expression = Template.interpolate d expression := by
      refine Template.interpolate_congr (h.mono ?_)
      intro name hname
      simp [Step.reads, hs, hname]
    simp only [Condition.holds, Condition.holds?, hsame]

namespace RequestSpec

variable {r : RequestSpec}

theorem bodyOf_congr (h : Context.AgreeOn r.reads c d) : r.bodyOf c = r.bodyOf d := by
  unfold bodyOf
  cases hp : r.payload with
  | none => rfl
  | some payload =>
    have hsame : Template.interpolate c payload = Template.interpolate d payload := by
      refine Template.interpolate_congr (h.mono ?_)
      intro name hname
      simp [reads, hp, hname]
    simp only [Option.map_some, hsame]

theorem headersOf_congr (h : Context.AgreeOn r.reads c d) : r.headersOf c = r.headersOf d := by
  have hgiven : r.headers.map (fun _ value => Template.interpolate c value) =
      r.headers.map (fun _ value => Template.interpolate d value) := by
    unfold Table.map
    congr 1
    refine List.map_congr_left ?_
    intro e he
    refine congrArg (Prod.mk e.1) (Template.interpolate_congr (h.mono ?_))
    intro name hname
    simp only [reads, List.mem_append, List.mem_flatMap]
    exact Or.inl (Or.inr ⟨e, he, hname⟩)
  simp only [headersOf, hgiven, bodyOf_congr h]

theorem prepare_congr [Url.Names] (h : Context.AgreeOn r.reads c d) (settings : Settings)
    (users : Table User) : r.prepare settings users c = r.prepare settings users d := by
  have hendpoint : Template.interpolate c r.endpoint = Template.interpolate d r.endpoint := by
    refine Template.interpolate_congr (h.mono ?_)
    intro name hname
    simp [reads, hname]
  simp only [prepare, hendpoint, headersOf_congr h, bodyOf_congr h]

end RequestSpec

/-! ## The checks -/

theorem Verification.headerFailures_congr {v : Verification} (h : Context.AgreeOn v.reads c d)
    (r : Response) : v.headerFailures r (some c) = v.headerFailures r (some d) := by
  unfold Verification.headerFailures
  refine List.filterMap_congr ?_
  intro e he
  have hsame : Template.interpolate c e.2 = Template.interpolate d e.2 := by
    refine Template.interpolate_congr (h.mono ?_)
    intro name hname
    simp only [Verification.reads, List.mem_append, List.mem_flatMap]
    exact Or.inl ⟨e, he, hname⟩
  simp only [Verification.expectedHeader, hsame]

theorem PathAssertion.check_congr [Pattern.Engine] {a : PathAssertion}
    (h : Context.AgreeOn a.reads c d)
    (document : Json) : a.check document (some c) = a.check document (some d) := by
  have hresolved : a.resolved (some c) = a.resolved (some d) := by
    unfold PathAssertion.resolved
    cases he : a.expected with
    | string s =>
      have hsame : Template.interpolate c s = Template.interpolate d s := by
        refine Template.interpolate_congr (h.mono ?_)
        intro name hname
        simpa [PathAssertion.reads, he] using hname
      simp only [hsame]
    | null | bool | int | float | array | object => rfl
  simp only [PathAssertion.check, hresolved]

/-- Checks that agree on the members of a list agree on the list. -/
theorem mapM_congr {α β ε : Type} {f g : α → Except ε β} {l : List α} (h : ∀ x ∈ l, f x = g x) :
    l.mapM f = l.mapM g := by
  induction l with
  | nil => rfl
  | cons x l ih =>
    rw [List.mapM_cons, List.mapM_cons, h x List.mem_cons_self,
      ih fun y hy => h y (List.mem_cons_of_mem x hy)]

theorem Verification.check_congr [Pattern.Engine] {v : Verification}
    (h : Context.AgreeOn v.reads c d) (r : Response) : v.check r (some c) = v.check r (some d) := by
  have hassertions : ∀ document,
      v.assertions.mapM (fun a => a.check document (some c)) =
        v.assertions.mapM fun a => a.check document (some d) := by
    intro document
    refine mapM_congr ?_
    intro a ha
    refine PathAssertion.check_congr (h.mono ?_) document
    intro name hname
    simp only [Verification.reads, List.mem_append, List.mem_flatMap]
    exact Or.inr ⟨a, ha, hname⟩
  simp only [Verification.check, Verification.assertionFailures, headerFailures_congr h,
    hassertions]

/-- **The checks of a step** see the variables that the step reads (`Step.reads`): contexts that
`AgreeOn` them give the same failures. -/
theorem Step.checkFailures_congr [Pattern.Engine] {s : Step} (h : Context.AgreeOn s.reads c d)
    (r : Response) :
    checkFailures s c r = checkFailures s d r := by
  unfold checkFailures
  cases hv : s.verification with
  | none => rfl
  | some v =>
    have hsame : v.check r (some c) = v.check r (some d) := by
      refine Verification.check_congr (h.mono ?_) r
      intro name hname
      simp [Step.reads, hv, hname]
    simp only [hsame]

end Reading

/-! ## The rules -/

/-- What the rules of a step write with a document, in order (`ExtractionRule.yield?`).  The
variables have no part in it. -/
def writesOf [Pattern.Engine] (step : String) (document : Option Json) :
    List ExtractionRule → Except Path.Breakdown (List Write)
  | [] => .ok []
  | rule :: rest => do
    let found ← rule.yield? document
    let ws ← writesOf step document rest
    return (found.map fun v => (rule.target, ⟨v, step, rule.source⟩)).toList ++ ws

/-- What a step writes when a response has passed its checks. -/
def Step.writes [Pattern.Engine] (s : Step) (r : Response) : Except Path.Breakdown (List Write) :=
  writesOf s.name (Json.parse r.body).toOption s.extractions

theorem mem_map_target_of_writesOf [Pattern.Engine] {step : String} {document : Option Json}
    {rules : List ExtractionRule} {ws : List Write} (h : writesOf step document rules = .ok ws) :
    ∀ w ∈ ws, w.1 ∈ rules.map (·.target) := by
  induction rules generalizing ws with
  | nil =>
    obtain rfl := Except.ok.inj h
    simp
  | cons rule rest ih =>
    rw [writesOf] at h
    cases hy : rule.yield? document with
    | error b => rw [hy] at h; cases h
    | ok found =>
      cases hr : writesOf step document rest with
      | error b => rw [hy, hr] at h; cases h
      | ok rs =>
        rw [hy, hr] at h
        obtain rfl := Except.ok.inj h
        intro w hw
        rcases List.mem_append.1 hw with hw | hw
        · obtain ⟨v, -, rfl⟩ := Option.map_eq_some_iff.1 (Option.mem_toList.1 hw)
          exact List.mem_cons_self
        · exact List.mem_cons_of_mem _ (ih hr w hw)

theorem Step.mem_targets_of_writes [Pattern.Engine] {s : Step} {r : Response} {ws : List Write}
    (h : s.writes r = .ok ws) : ∀ w ∈ ws, w.1 ∈ s.targets :=
  mem_map_target_of_writesOf h

/-- **What rules write does not depend on the variables**: `extract` is `writesOf` the body, put
in by `writeAll`, and each write counts once. -/
theorem extract_eq_writes [Pattern.Engine] (ctx : Context) (step : String)
    (rules : List ExtractionRule) (body : String) :
    extract ctx step rules body =
      (writesOf step (Json.parse body).toOption rules).map fun ws =>
        ⟨ctx.writeAll ws, ws.length⟩ := by
  unfold extract
  -- the induction is on the rules; each finds the variables that the ones before it have left
  suffices hfold : ∀ (rules : List ExtractionRule) (x : Extracted),
      rules.foldlM (Extracted.apply step (Json.parse body).toOption) x =
        (writesOf step (Json.parse body).toOption rules).map fun ws =>
          ⟨x.context.writeAll ws, x.written + ws.length⟩ by
    simpa using hfold rules ⟨ctx, 0⟩
  intro rules
  induction rules with
  | nil => intro x; rfl
  | cons rule rest ih =>
    intro x
    rw [List.foldlM_cons, writesOf, Extracted.apply]
    cases rule.yield? (Json.parse body).toOption with
    | error b => rfl
    | ok found =>
      cases found with
      | none =>
        refine Eq.trans (ih x) ?_
        cases writesOf step (Json.parse body).toOption rest <;> rfl
      | some v =>
        refine Eq.trans (ih ⟨x.context.set rule.target v (some ⟨step, rule.source⟩), _⟩) ?_
        cases writesOf step (Json.parse body).toOption rest with
        | error b => rfl
        | ok ws =>
          have hcount : x.written + 1 + ws.length = x.written + (ws.length + 1) := by omega
          show Except.ok (Extracted.mk _ _) = Except.ok (Extracted.mk _ _)
          rw [hcount]
          rfl

/-- **What a step takes from a response does not depend on the variables**: the rules write
(`writesOf`), and look at the response alone. -/
theorem extractAll_eq_writes [Pattern.Engine] (s : Step) (ctx : Context) (r : Response) :
    extractAll s ctx r = (s.writes r).map ctx.writeAll := by
  rw [extractAll_eq, extract_eq_writes]
  unfold Step.writes
  cases writesOf s.name (Json.parse r.body).toOption s.extractions <;> rfl

/-! ## The attempts and the step -/

section Steps

variable {env : Environment} {reply : Request → Reply} {s : Step} {c d : Context}

/-- One attempt, when every request has one answer: the pause before it does not count. -/
theorem result?_attempt_succ [Pattern.Engine] (reply : Request → Reply) (s : Step)
    (request : Request)
    (ctx : Context) (left n : Nat) (failures : List String) (last : Option Response) :
    (attempt s request ctx (left + 1) n failures last).result? reply =
      match reply request with
      | .ok r => (checkFailures s ctx r).toOption.bind fun found =>
          if found.isEmpty then
            (s.writes r).toOption.map fun ws => ⟨.passed (n + 1), ctx.writeAll ws, some r⟩
          else (attempt s request ctx left (n + 1) found (some r)).result? reply
      | .error fault =>
        if left = 0 then some ⟨.errored (n + 1) (sendFaultText fault), ctx, last⟩
        else (attempt s request ctx left (n + 1) failures last).result? reply := by
  rw [attempt]
  -- a pause before the attempt is passed over, so both cases are the exchange that follows
  cases (RetryPolicy.ofStep s).pauseBefore? (n + 1) with
  | none | some time =>
    simp only [Process.result?]
    cases reply request with
    | error fault =>
      by_cases hleft : left = 0
      · simp only [hleft, if_true, Process.result?]
      · simp only [hleft, if_false]
    | ok r =>
      simp only [Process.result?_bind, Process.result?_ofExcept, extractAll_eq_writes]
      refine congrArg _ ?_
      funext found
      by_cases hfound : found.isEmpty
      · simp only [hfound, if_true, Process.result?_bind, Process.result?_ofExcept]
        cases s.writes r <;> rfl
      · simp only [hfound, Bool.false_eq_true, if_false]

/-- Attempts in two contexts that agree on what the step reads end alike, with the same writes. -/
theorem exists_writes_attempt [Pattern.Engine] (hcd : Context.AgreeOn s.reads c d)
    {request : Request}
    {left n : Nat} {failures : List String} {last last' : Option Response} {t : Attempted}
    (h : (attempt s request c left n failures last).result? reply = some t) :
    ∃ ws last'', (∀ w ∈ ws, w.1 ∈ s.targets) ∧ t.context = c.writeAll ws ∧
      (attempt s request d left n failures last').result? reply =
        some ⟨t.outcome, d.writeAll ws, last''⟩ := by
  -- the last response is left open, as a run may have one from before that another has not
  induction left generalizing n failures last last' with
  | zero =>
    obtain rfl := Option.some.inj h
    exact ⟨[], last', by simp, rfl, rfl⟩
  | succ left ih =>
    rw [result?_attempt_succ] at h ⊢
    cases hr : reply request with
    | error fault =>
      simp only [hr] at h ⊢
      by_cases hleft : left = 0
      · rw [if_pos hleft] at h ⊢
        obtain rfl := Option.some.inj h
        exact ⟨[], last', by simp, rfl, rfl⟩
      · rw [if_neg hleft] at h ⊢
        exact ih h
    | ok r =>
      simp only [hr, Step.checkFailures_congr hcd] at h ⊢
      cases hc : checkFailures s d r with
      | error b => rw [hc] at h; cases h
      | ok found =>
        simp only [hc, Except.toOption, Option.bind_some] at h ⊢
        by_cases hfound : found.isEmpty
        · rw [if_pos hfound] at h ⊢
          cases hw : s.writes r with
          | error b => rw [hw] at h; cases h
          | ok ws =>
            rw [hw] at h
            obtain rfl := Option.some.inj h
            exact ⟨ws, some r, Step.mem_targets_of_writes hw, rfl, rfl⟩
        · rw [if_neg hfound] at h ⊢
          exact ih h

/-- **The footprint of a step.**  In two states whose variables agree on what the step reads
(`AgreeOn`), it has the same outcome and writes the same values, to its `targets` only. -/
theorem exists_writes_runStep [Pattern.Engine] [Url.Names] {p q : Progress} {t : Attempted}
    (hpq : Context.AgreeOn s.reads p.context q.context)
    (h : (runStep env s p).result? reply = some t) :
    ∃ ws last, (∀ w ∈ ws, w.1 ∈ s.targets) ∧ t.context = p.context.writeAll ws ∧
      (runStep env s q).result? reply = some ⟨t.outcome, q.context.writeAll ws, last⟩ := by
  have hprepare : s.request.prepare env.settings env.users p.context =
      s.request.prepare env.settings env.users q.context := by
    refine RequestSpec.prepare_congr (hpq.mono ?_) env.settings env.users
    intro name hname
    simp [Step.reads, hname]
  unfold runStep at h ⊢
  rw [Step.isWanted_congr hpq, hprepare] at h
  by_cases hw : s.isWanted q.context
  · rw [if_pos hw] at h ⊢
    cases hp : s.request.prepare env.settings env.users q.context with
    | error fault =>
      simp only [hp] at h ⊢
      obtain rfl := Option.some.inj h
      exact ⟨[], q.lastResponse, by simp, rfl, rfl⟩
    | ok request =>
      simp only [hp] at h ⊢
      exact exists_writes_attempt hpq h
  · rw [if_neg hw] at h ⊢
    obtain rfl := Option.some.inj h
    exact ⟨[], q.lastResponse, by simp, rfl, rfl⟩

end Steps

end RestCase
