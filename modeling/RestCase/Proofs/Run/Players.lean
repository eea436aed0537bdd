/-
# RestCase.Proofs.Run.Players — suites however they are played

A suite is played one case after the other on one worker, by tasks that take turns in any order on
several, and not at all where there are more workers than there can be (`Played`).  A client may
answer by everything that was sent before, so that the order makes a difference to what the cases
come to.  Whatever it is, every case stands in the results with an end of its own run, in its own
place (`Played.entries`), and if no case breaks down there are results unless there are too many
workers (`Played.exists_results_iff`).

With a client that answers by the last request alone, any two plays have the same results
(`Played.results_eq`).  The suite that runs one task after the other is one way to play it
(`lawful_run`).
-/
import Mathlib.Data.List.Forall2
import RestCase.Proofs.Process.Ends
import RestCase.Proofs.Run.Orders

namespace RestCase

/-! ## Tasks -/

namespace Stage

/-- What the task has still to do can only come to what it could come to from the beginning, and
where it has ended, it has come to it; nothing is in its slot before it is collected. -/
def Comes (client : Client) (own : Process (Nat × CaseResult)) :
    Stage → Option CaseResult → Prop
  | .waiting body, slot => body = own ∧ slot = none
  | .running rest, slot =>
    (∀ o, rest.EndsWith client o → own.EndsWith client o) ∧ slot = none
  | .ended found, slot => own.EndsWith client found ∧ slot = none
  | .joined found, slot => own.EndsWith client found ∧ slot = found.map Prod.snd

/-- A running task stays on the way to an end of its own, whatever the others have sent. -/
theorem Acts.comes {client : Client} {t t' : Stage} {j j' : Journal} (h : t.Acts client j t' j')
    {own : Process (Nat × CaseResult)} {slot : Option CaseResult}
    (hs : t.Comes client own slot) : t'.Comes client own slot := by
  cases h with
  | nap time rest =>
    obtain ⟨hown, hslot⟩ := hs
    exact ⟨fun o ho => hown o (.nap ho), hslot⟩
  | send r next =>
    obtain ⟨hown, hslot⟩ := hs
    exact ⟨fun o ho => hown o (.send j.requests ho), hslot⟩
  | finish found =>
    obtain ⟨hown, hslot⟩ := hs
    exact ⟨hown _ (.done found), hslot⟩
  | breakDown =>
    obtain ⟨hown, hslot⟩ := hs
    exact ⟨hown _ .broken, hslot⟩

end Stage

/-- The task of a case ends as the run of the case does, with the place of the case. -/
theorem exists_endsWith_of_taskBody [Pattern.Engine] [Url.Names] {env : Environment}
    {client : Client} {place : Nat} {c : TestCase} {found : Option (Nat × CaseResult)}
    (h : (taskBody env place c).EndsWith client found) :
    ∃ o, (runCase env c).EndsWith client o ∧ found = o.map (Prod.mk place) := by
  rcases h.of_bind with ⟨rfl, hbroken⟩ | ⟨r, hr, hdone⟩
  · exact ⟨none, hbroken, rfl⟩
  · cases hdone
    exact ⟨some r, hr, rfl⟩

/-- Every turn of a task keeps it on the way to an end of its own. -/
theorem Pool.kept_comes [Pattern.Engine] [Url.Names] (env : Environment) (client : Client) :
    Kept client fun i c t slot => t.Comes client (taskBody env i c) slot where
  enter := by
    rintro i c body slot ⟨rfl, hslot⟩
    exact ⟨fun _ ho => ho, hslot⟩
  act hacts hs := hacts.comes hs
  ended := by
    rintro i c found slot ⟨hfound, rfl⟩
    refine ⟨?_, rfl, hfound, rfl⟩
    rintro a rfl
    obtain ⟨o, -, ho⟩ := exists_endsWith_of_taskBody hfound
    obtain ⟨r, -, rfl⟩ := Option.map_eq_some_iff.1 ho.symm
    rfl

namespace Suite

variable [Pattern.Engine] [Url.Names]

/-! ## Results that cases come to -/

/-- The result of a case in a suite: one that its run `EndsWith`, or `CaseResult.aborted` where
the run breaks down. -/
def Entry (env : Environment) (client : Client) (c : TestCase) (r : CaseResult) : Prop :=
  ∃ o, (runCase env c).EndsWith client o ∧ r = taskResult c o

section Plays

variable {env : Environment} {client : Client} {workers : Nat} {cases : List TestCase}
  {results : List CaseResult}

/-- The results of a settled pool are those that the cases come to (`Entry`), in whatever order
the tasks took their turns (`Goes`). -/
theorem entries_of_goes {p : Pool} (hp : Pool.Goes client workers (.start env cases) p)
    (hsettled : p.Settled) : List.Forall₂ (Entry env client) cases (p.results cases) := by
  have hkept := Pool.kept_comes env client
  have hcomes := (Pool.each_start fun _ _ => ⟨rfl, rfl⟩).goes hkept hp
  rw [List.forall₂_iff_get]
  refine ⟨hcomes.length_results.symm, ?_⟩
  intro i hi hi'
  obtain ⟨found, slot, -, ⟨hfound, rfl⟩, hresult⟩ :=
    hcomes.results_entry hsettled (List.getElem?_eq_getElem hi)
  obtain ⟨o, ho, rfl⟩ := exists_endsWith_of_taskBody hfound
  refine ⟨o, ho, ?_⟩
  -- the slot holds the end without the place, which the task carried along
  have hr := Option.some.inj ((List.getElem?_eq_getElem hi').symm.trans hresult)
  rw [Option.map_map] at hr
  rw [List.get_eq_getElem, List.get_eq_getElem, hr]
  cases o <;> rfl

/-- Cases that run one after the other have the results that their runs end with. -/
theorem ends_of_sequentially
    (h : (sequentially env cases).EndsWith client (some results)) :
    List.Forall₂ (fun c r => (runCase env c).EndsWith client (some r)) cases results := by
  induction cases generalizing results with
  | nil =>
    cases h
    exact .nil
  | cons c cases ih =>
    rcases h.of_bind with ⟨ho, -⟩ | ⟨r, hr, h⟩
    · cases ho
    rcases h.of_bind with ⟨ho, -⟩ | ⟨rest, hrest, h⟩
    · cases ho
    cases h
    exact .cons hr (ih hrest)

/-- If cases that run one after the other come to no results, one of them breaks down. -/
theorem exists_broken_of_sequentially (h : (sequentially env cases).EndsWith client none) :
    ∃ c ∈ cases, (runCase env c).EndsWith client none := by
  induction cases with
  | nil => cases h
  | cons c cases ih =>
    rcases h.of_bind with ⟨-, hc⟩ | ⟨r, -, h⟩
    · exact ⟨c, List.mem_cons_self, hc⟩
    rcases h.of_bind with ⟨-, hcases⟩ | ⟨rest, -, h⟩
    · obtain ⟨d, hd, hbroken⟩ := ih hcases
      exact ⟨d, List.mem_cons_of_mem c hd, hbroken⟩
    · cases h

/-! ## Plays -/

/-- What a suite can come to: on one worker the cases run one after the other, on several their
tasks take turns until all were collected (`Pool.Goes`), and with more than `maxWorkers` nothing
runs. -/
inductive Played (env : Environment) (client : Client) (workers : Nat) (cases : List TestCase) :
    Option (List CaseResult) × Journal → Prop
  | oneByOne : workers ≤ 1 →
      Played env client workers cases ((sequentially env cases).play client .empty)
  | inTurns {p : Pool} : 1 < workers → workers ≤ maxWorkers →
      Pool.Goes client workers (.start env cases) p → p.Settled →
      Played env client workers cases (some (p.results cases), p.journal)
  | notAtAll : maxWorkers < workers → Played env client workers cases (none, .empty)

/-- The player plays a suite in one of the ways in which it can be `Played`. -/
def Player.Lawful (player : Player) : Prop :=
  ∀ env client workers cases, Played env client workers cases (player env client workers cases)

/-- **The suite that runs one task after the other** is one way to play it: `Suite.run` is
`Lawful`. -/
theorem lawful_run : Player.Lawful run := by
  intro env client workers cases
  rw [run]
  by_cases hone : workers ≤ 1
  · rw [if_pos hone]
    exact .oneByOne hone
  rw [if_neg hone]
  by_cases hmax : maxWorkers < workers
  · rw [if_pos hmax]
    exact .notAtAll hmax
  rw [if_neg hmax]
  have hworkers : 0 < workers := by omega
  obtain ⟨p, hp, hsettled, htasks⟩ := exists_goes_tasks env client hworkers cases
  rw [htasks]
  exact .inTurns (Nat.lt_of_not_le hone) (Nat.le_of_not_lt hmax) hp hsettled

/-- With a client that answers by the last request alone, what holds of all results that the runs of
cases end with is what holds of the results that they have alone. -/
theorem forall_ends_iff (hclient : client.Memoryless) {P : CaseResult → Prop}
    (h : List.Forall₂ (fun c r => (runCase env c).EndsWith client (some r)) cases results) :
    (∀ r ∈ results, P r) ↔
      ∀ c ∈ cases, ∃ r, (runCase env c).result? client.replyTo = some r ∧ P r := by
  induction h with
  | nil => simp
  | @cons c r cases results hr _ ih =>
    rw [Process.endsWith_iff_result? hclient] at hr
    simp [ih, hr]

variable {played played' : Option (List CaseResult) × Journal}

/-- **Results hold for every case what its own run comes to** (`Entry`). -/
theorem Played.entries (h : Played env client workers cases played)
    (hresults : played.1 = some results) :
    List.Forall₂ (Entry env client) cases results := by
  cases h with
  | oneByOne =>
    have hends := Process.endsWith_play client (sequentially env cases) .empty
    rw [hresults] at hends
    exact (ends_of_sequentially hends).imp fun _ r hr => ⟨some r, hr, rfl⟩
  | inTurns _ _ hp hsettled =>
    obtain rfl := Option.some.inj hresults
    exact entries_of_goes hp hsettled
  | notAtAll => cases hresults

/-- If no case breaks down, every case stands in the results with one that its run ends with. -/
theorem Played.ends (h : Played env client workers cases played)
    (hreturns : ∀ c ∈ cases, (runCase env c).Returns client)
    (hresults : played.1 = some results) :
    List.Forall₂ (fun c r => (runCase env c).EndsWith client (some r)) cases results := by
  have hentries := (List.forall₂_and_left _ _).2 ⟨hreturns, h.entries hresults⟩
  refine hentries.imp ?_
  rintro c r ⟨hc, o, ho, rfl⟩
  -- only a case that breaks down has the result of one that could not run
  cases o with
  | none => exact absurd ho hc
  | some r => exact ho

/-- **If no case breaks down, a suite has results** unless there are more workers than
`maxWorkers`. -/
theorem Played.exists_results_iff (h : Played env client workers cases played)
    (hreturns : ∀ c ∈ cases, (runCase env c).Returns client) :
    (∃ results, played.1 = some results) ↔ workers ≤ maxWorkers := by
  cases h with
  | oneByOne hone =>
    have hmax : workers ≤ maxWorkers := Nat.le_trans hone (by decide)
    refine ⟨fun _ => hmax, fun _ => ?_⟩
    -- a suite that comes to nothing here would owe it to one of its cases
    have hends := Process.endsWith_play client (sequentially env cases) .empty
    cases hplay : ((sequentially env cases).play client .empty).1 with
    | some results => exact ⟨results, rfl⟩
    | none =>
      rw [hplay] at hends
      obtain ⟨c, hc, hbroken⟩ := exists_broken_of_sequentially hends
      exact absurd hbroken (hreturns c hc)
  | inTurns _ hmax => exact ⟨fun _ => hmax, fun _ => ⟨_, rfl⟩⟩
  | notAtAll hmax =>
    constructor
    · rintro ⟨results, hresults⟩
      cases hresults
    · intro hle
      exact absurd hle (Nat.not_le.2 hmax)

/-- **With a client that answers by the last request alone** (`Memoryless`), **any two plays of a
suite have the same results**, on whatever numbers of workers, if no case breaks down. -/
theorem Played.results_eq (hclient : client.Memoryless) {workers' : Nat}
    (hreturns : ∀ c ∈ cases, (runCase env c).Returns client)
    (h : Played env client workers cases played) (hworkers : workers ≤ maxWorkers)
    (h' : Played env client workers' cases played') (hworkers' : workers' ≤ maxWorkers) :
    played.1 = played'.1 := by
  obtain ⟨results, hresults⟩ := (h.exists_results_iff hreturns).2 hworkers
  obtain ⟨results', hresults'⟩ := (h'.exists_results_iff hreturns).2 hworkers'
  -- either list is the one of the results that the cases have alone
  have halone : ∀ {l : List CaseResult},
      List.Forall₂ (fun c r => (runCase env c).EndsWith client (some r)) cases l →
        (sequentially env cases).result? client.replyTo = some l := by
    intro l hl
    rw [result?_sequentially_iff]
    exact hl.imp fun _ _ hr => (Process.endsWith_iff_result? hclient).1 hr
  rw [hresults, hresults', ← halone (h.ends hreturns hresults),
    ← halone (h'.ends hreturns hresults')]

end Plays

end Suite

end RestCase
