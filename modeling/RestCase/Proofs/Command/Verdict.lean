/-
# RestCase.Proofs.Command.Verdict — the verdict of a run

A run begins when there are cases at the path that is asked for, the users can be read and there is
a client (`start_eq_ok_iff`, `Ready`); then its verdict is that on the results of its suite, and
nothing else counts (`runWith_ended_iff`).  Neither the reports nor the way in which the suite is
played can change it, the latter as far as the client answers by the last request alone.
`verdict_of_suite` says so for all arguments, trees of files and clients, and that a run succeeds
exactly when the whole suite has passed.

Only more workers than there can be take a run down whose cases all return
(`exists_passing_suite_without_success`).
-/
import RestCase.Command.Program
import RestCase.Proofs.Decoding.Records
import RestCase.Proofs.Run.Players

namespace RestCase.Command

open Decoding (bind_eq_ok_iff mapError_eq_ok_iff)

/-! ## What a run needs to begin -/

/-- The cases of a run are looked for at a path (`casePath`), and there is a file or a directory. -/
inductive CasesAt (a : Arguments) (files : Files.Tree) : String → Prop
  | file {path : String} : a.testFile = some path → files.isFile path = true →
      CasesAt a files path
  | directory : a.testFile = none → files.isDirectory a.testDir = true →
      CasesAt a files a.testDir

/-- All that a run needs to begin with `b`: cases below a path (`CasesAt`), users and a client. -/
structure Ready (a : Arguments) (transport : Transport) (files : Files.Tree) (b : Begun) :
    Prop where
  loaded : ∃ path l, CasesAt a files path ∧ Loading.ofPaths files [path] = .ok l ∧ l ≠ [] ∧
    l.map (·.case) = b.cases
  users : (a.users = none ∧ b.users = .empty) ∨
    ∃ path, a.users = some path ∧ Users.ofFile files path = .ok b.users
  client : transport = .ok b.client

section Beginning

variable {a : Arguments} {transport : Transport} {files : Files.Tree} {b b' : Begun}

theorem casePath_eq_ok_iff {path : String} :
    casePath a files = .ok path ↔ CasesAt a files path := by
  unfold casePath
  constructor
  · intro h
    split at h
    · rename_i written hfile
      split at h
      · obtain rfl := Except.ok.inj h
        exact .file hfile ‹_›
      · cases h
    · rename_i hdirectory
      split at h
      · obtain rfl := Except.ok.inj h
        exact .directory hdirectory ‹_›
      · cases h
  · intro h
    cases h with
    | file hfile hthere => simp [hfile, hthere]
    | directory hdirectory hthere => simp [hdirectory, hthere]

theorem casesOf_eq_ok_iff {cases : List TestCase} :
    casesOf a files = .ok cases ↔
      ∃ path l, CasesAt a files path ∧ Loading.ofPaths files [path] = .ok l ∧ l ≠ [] ∧
        l.map (·.case) = cases := by
  simp only [casesOf, bind_eq_ok_iff, casePath_eq_ok_iff, mapError_eq_ok_iff]
  constructor
  · rintro ⟨path, hpath, l, hl, hcases⟩
    cases l with
    | nil => cases hcases
    | cons c l => exact ⟨path, c :: l, hpath, hl, List.cons_ne_nil c l, Except.ok.inj hcases⟩
  · rintro ⟨path, l, hpath, hl, hsome, rfl⟩
    cases l with
    | nil => exact absurd rfl hsome
    | cons c l => exact ⟨path, hpath, c :: l, hl, rfl⟩

theorem usersOf_eq_ok_iff {users : Table User} :
    usersOf a files = .ok users ↔
      (a.users = none ∧ users = .empty) ∨
        ∃ path, a.users = some path ∧ Users.ofFile files path = .ok users := by
  unfold usersOf
  cases a.users with
  | none => simp [eq_comm]
  | some path => simp [mapError_eq_ok_iff]

/-- **A run begins when it has all that it needs**: `start` succeeds with `b` exactly if it is
`Ready`. -/
theorem start_eq_ok_iff : start a transport files = .ok b ↔ Ready a transport files b := by
  simp only [start, bind_eq_ok_iff, casesOf_eq_ok_iff, usersOf_eq_ok_iff, mapError_eq_ok_iff]
  constructor
  · rintro ⟨cases, hcases, users, husers, client, hclient, hb⟩
    obtain rfl := Except.ok.inj hb
    exact ⟨hcases, husers, hclient⟩
  · rintro ⟨hcases, husers, hclient⟩
    exact ⟨b.cases, hcases, b.users, husers, b.client, hclient, rfl⟩

/-- What a run begins with is settled. -/
theorem Ready.eq (h : Ready a transport files b) (h' : Ready a transport files b') : b = b' :=
  Except.ok.inj ((start_eq_ok_iff.2 h).symm.trans (start_eq_ok_iff.2 h'))

end Beginning

/-! ## The suite of a run -/

namespace Begun

variable [Pattern.Engine] [Url.Names]

/-- The results of the suite that a run has begun, if its player gives any. -/
def results? (b : Begun) (player : Suite.Player) (a : Arguments) : Option (List CaseResult) :=
  (player (environment a b.users) b.client a.workers b.cases).1

/-- None of the cases breaks down, whatever else the client is asked (`Process.Returns`). -/
def Returns (b : Begun) (a : Arguments) : Prop :=
  ∀ c ∈ b.cases, (runCase (environment a b.users) c).Returns b.client

/-- The result that a case has alone, if it has any. -/
def resultAlone? (b : Begun) (a : Arguments) (c : TestCase) : Option CaseResult :=
  (runCase (environment a b.users) c).result? b.client.replyTo

/-- Every case has a result that its own run ends with (`Process.EndsWith`). -/
def Comes (b : Begun) (a : Arguments) (results : List CaseResult) : Prop :=
  List.Forall₂ (fun c r => (runCase (environment a b.users) c).EndsWith b.client (some r))
    b.cases results

end Begun

section Running

variable {player : Suite.Player} {a : Arguments} {transport : Transport} {now : LocalTime}
  {files : Files.Tree}

theorem runWith_verdict_of_ready {b : Begun} (h : Ready a transport files b) :
    (runWith player a transport now files).verdict = .ofResults (b.results? player a) := by
  rw [runWith_verdict, start_eq_ok_iff.2 h]
  rfl

/-- **A run ends with the verdict on the results of its suite**, and only so: if it is `Ready` and
`results?` has some. -/
theorem runWith_ended_iff {allPassed : Bool} :
    (runWith player a transport now files).verdict = .ended allPassed ↔
      ∃ b l, Ready a transport files b ∧ b.results? player a = some l ∧
        (Report.Summary.ofResults l).allPassed = allPassed := by
  constructor
  · intro h
    -- a run that cannot begin ends with a fault, and a suite without results with a breakdown
    cases hstart : start a transport files with
    | error fault =>
      rw [runWith_verdict, hstart] at h
      cases h
    | ok b =>
      have hb := start_eq_ok_iff.1 hstart
      rw [runWith_verdict_of_ready hb] at h
      cases hl : b.results? player a with
      | none =>
        rw [hl] at h
        cases h
      | some l =>
        rw [hl] at h
        exact ⟨b, l, hb, hl, Verdict.ended.inj h⟩
  · rintro ⟨b, l, hb, hl, rfl⟩
    rw [runWith_verdict_of_ready hb, hl]
    rfl

theorem not_allPassed_iff {l : List CaseResult} :
    (Report.Summary.ofResults l).allPassed = false ↔ ∃ r ∈ l, r.passed = false := by
  rw [← Bool.not_eq_true, Report.Summary.allPassed_iff]
  simp

/-- The verdict of `runWith` is the same when what is run is the same, and its suite has the same
results. -/
theorem runWith_verdict_congr {player' : Suite.Player} {a' : Arguments} {now' : LocalTime}
    (hstart : start a' transport files = start a transport files)
    (hresults : ∀ b, Ready a transport files b → b.results? player' a' = b.results? player a) :
    (runWith player' a' transport now' files).verdict =
      (runWith player a transport now files).verdict := by
  rw [runWith_verdict, runWith_verdict, hstart]
  cases hb : start a transport files with
  | error fault => rfl
  | ok b => exact congrArg Verdict.ofResults (hresults b (start_eq_ok_iff.1 hb))

theorem runWith_passed_iff :
    (runWith player a transport now files).verdict = .ended true ↔
      ∃ b l, Ready a transport files b ∧ b.results? player a = some l ∧
        ∀ r ∈ l, r.passed = true := by
  simp only [runWith_ended_iff, Report.Summary.allPassed_iff]

theorem runWith_failed_iff :
    (runWith player a transport now files).verdict = .ended false ↔
      ∃ b l, Ready a transport files b ∧ b.results? player a = some l ∧
        ∃ r ∈ l, r.passed = false := by
  simp only [runWith_ended_iff, not_allPassed_iff]

/-- A player that is `Lawful` plays the suite of a run in one of the ways in which it can be
`Played`. -/
theorem Begun.played [Pattern.Engine] [Url.Names] (hplayer : player.Lawful) (b : Begun)
    (a : Arguments) :
    Suite.Played (environment a b.users) b.client a.workers b.cases
      (player (environment a b.users) b.client a.workers b.cases) :=
  hplayer _ _ _ _

/-- With a client that answers by the last request alone, a run succeeds when every case has a
result alone that has passed. -/
theorem runWith_passed_iff_alone [Pattern.Engine] [Url.Names] (hplayer : player.Lawful)
    (hclient : ∀ b, Ready a transport files b → b.client.Memoryless ∧ b.Returns a)
    (hmax : a.workers ≤ Suite.maxWorkers) :
    (runWith player a transport now files).verdict = .ended true ↔
      ∃ b, Ready a transport files b ∧
        ∀ c ∈ b.cases, ∃ r, b.resultAlone? a c = some r ∧ r.passed = true := by
  -- with such a client the results of the suite are those that the cases have alone
  have hall : ∀ {b : Begun} {l : List CaseResult}, Ready a transport files b →
      b.results? player a = some l → ((∀ r ∈ l, r.passed = true) ↔
        ∀ c ∈ b.cases, ∃ r, b.resultAlone? a c = some r ∧ r.passed = true) := by
    intro b l hb hl
    obtain ⟨hmemoryless, hreturns⟩ := hclient b hb
    exact Suite.forall_ends_iff hmemoryless ((b.played hplayer a).ends hreturns hl)
  rw [runWith_passed_iff]
  constructor
  · rintro ⟨b, l, hb, hl, hpassed⟩
    exact ⟨b, hb, (hall hb hl).1 hpassed⟩
  · rintro ⟨b, hb, hpassed⟩
    obtain ⟨l, hl⟩ := ((b.played hplayer a).exists_results_iff (hclient b hb).2).2 hmax
    exact ⟨b, l, hb, hl, (hall hb hl).2 hpassed⟩

/-- With a client that is `Memoryless`, neither the number of workers nor the order in which they
work makes a difference to the verdict. -/
theorem runWith_verdict_of_memoryless [Pattern.Engine] [Url.Names] {player' : Suite.Player}
    (hplayer : player.Lawful)
    (hclient : ∀ b, Ready a transport files b → b.client.Memoryless ∧ b.Returns a)
    (hmax : a.workers ≤ Suite.maxWorkers) (hplayer' : player'.Lawful) {workers : Nat}
    (hmax' : workers ≤ Suite.maxWorkers) :
    (runWith player' { a with workers := workers } transport now files).verdict =
      (runWith player a transport now files).verdict := by
  refine runWith_verdict_congr rfl ?_
  intro b hb
  obtain ⟨hmemoryless, hreturns⟩ := hclient b hb
  exact (b.played hplayer' { a with workers := workers }).results_eq hmemoryless hreturns hmax'
    (b.played hplayer a) hmax

/-- **A run succeeds exactly when the whole suite has passed.**  It ends when it has all that it
needs to begin (`Ready`) and its suite has results (`results?`), which it does on as many workers as
`Suite.maxWorkers` if no case breaks down (`Returns`); these are the cases' own (`Comes`).  The
reports have no part in the verdict, nor, with a client that is `Memoryless`, the number of workers
and the order in which they work.  The `Report.Summary` of any results agrees with them. -/
theorem verdict_of_suite [Pattern.Engine] [Url.Names] (hplayer : player.Lawful) (a : Arguments)
    (transport : Transport) (now : LocalTime) (files : Files.Tree) :
    let verdict := (runWith player a transport now files).verdict
    (verdict.exit = 0 ↔ verdict = .ended true) ∧
    (verdict = .ended true ↔ ∃ b l, Ready a transport files b ∧
      b.results? player a = some l ∧ ∀ r ∈ l, r.passed = true) ∧
    (verdict = .ended false ↔ ∃ b l, Ready a transport files b ∧
      b.results? player a = some l ∧ ∃ r ∈ l, r.passed = false) ∧
    (∀ b, Ready a transport files b → b.Returns a →
      ((∃ l, b.results? player a = some l) ↔ a.workers ≤ Suite.maxWorkers) ∧
      ∀ l, b.results? player a = some l → b.Comes a l) ∧
    (∀ reportDir formats verbose now',
      (runWith player { a with reportDir := reportDir, formats := formats, verbose := verbose }
        transport now' files).verdict = verdict) ∧
    ((∀ b, Ready a transport files b → b.client.Memoryless ∧ b.Returns a) →
      a.workers ≤ Suite.maxWorkers →
      (verdict = .ended true ↔ ∃ b, Ready a transport files b ∧
        ∀ c ∈ b.cases, ∃ r, b.resultAlone? a c = some r ∧ r.passed = true) ∧
      ∀ (player' : Suite.Player) (workers : Nat), player'.Lawful →
        workers ≤ Suite.maxWorkers →
        (runWith player' { a with workers := workers } transport now files).verdict = verdict) ∧
    ∀ l : List CaseResult,
      (Report.Summary.ofResults l).passed + (Report.Summary.ofResults l).failed =
        (Report.Summary.ofResults l).total ∧
      (Report.Summary.ofResults l).successRate ≤ 100 ∧
      ((Report.Summary.ofResults l).successRate = 100 ↔ l ≠ [] ∧ ∀ r ∈ l, r.passed = true) := by
  refine ⟨Verdict.exit_eq_zero_iff _, runWith_passed_iff, runWith_failed_iff, ?_, ?_, ?_, ?_⟩
  · intro b _ hreturns
    have hplayed := b.played hplayer a
    exact ⟨hplayed.exists_results_iff hreturns, fun l => hplayed.ends hreturns⟩
  · intro reportDir formats verbose now'
    exact runWith_verdict_congr rfl fun _ _ => rfl
  · intro hclient hmax
    refine ⟨runWith_passed_iff_alone hplayer hclient hmax, ?_⟩
    intro player' workers hplayer' hmax'
    exact runWith_verdict_of_memoryless hplayer hclient hmax hplayer' hmax'
  · intro l
    exact ⟨Report.Summary.passed_add_failed l, Report.Summary.successRate_le l,
      Report.Summary.successRate_eq_hundred_iff l⟩

end Running

/-! ## A suite of one case -/

namespace OneCase

/-- A case with one request, of whose answer nothing is asked. -/
def text : String :=
  "name: case\nexecution:\n  - name: get\n    request:\n      method: GET\n      endpoint: x://h\n"

/-- A tree with the file of that case. -/
def files : Files.Tree := ⟨[("case.yaml", .file (some text))], []⟩

/-- The words that ask for the case on a number of workers. -/
def words (workers : String) : List String := ["--testFile", "case.yaml", "--parallel", workers]

/-- What these words ask for. -/
def arguments (workers : Nat) : Arguments where
  testDir := "tests/testcases"
  reportDir := "target/reports"
  testFile := some "case.yaml"
  users := none
  baseUrl := none
  workers := workers
  formats := Report.Format.all
  verbose := false

/-- A client that answers every request. -/
def client : Client := fun _ => .ok ⟨200, [], ""⟩

theorem memoryless_client : client.Memoryless := fun _ _ _ => rfl

theorem all_passed :
    ((casesOf (arguments 1) files).toOption.any fun l => l.all fun c =>
      ((runCase (environment (arguments 1) .empty) c).result? client.replyTo).any
        CaseResult.passed) = true := by
  decide +kernel

/-- The case is found, and passes alone, whatever the number of workers is. -/
theorem exists_ready (workers : Nat) :
    ∃ b, Ready (arguments workers) (.ok client) files b ∧
      ∀ c ∈ b.cases, ∃ r, b.resultAlone? (arguments workers) c = some r ∧ r.passed = true := by
  have hall := all_passed
  -- the number of workers has no part in what is looked for, nor in the environment
  cases hcases : casesOf (arguments 1) files with
  | error fault =>
    rw [hcases] at hall
    cases hall
  | ok l =>
    rw [hcases] at hall
    refine ⟨⟨l, .empty, client⟩, ⟨casesOf_eq_ok_iff.1 hcases, Or.inl ⟨rfl, rfl⟩, rfl⟩, ?_⟩
    intro c hc
    exact (Option.any_eq_true _ _).1 (List.all_eq_true.1 hall c hc)

/-- The case returns, whatever the number of workers is. -/
theorem returns {workers : Nat} {b : Begun} (h : Ready (arguments workers) (.ok client) files b) :
    b.client.Memoryless ∧ b.Returns (arguments workers) := by
  have hmemoryless : b.client.Memoryless := by
    rw [← Except.ok.inj h.client]
    exact memoryless_client
  refine ⟨hmemoryless, ?_⟩
  obtain ⟨b', hb', hpassed⟩ := exists_ready workers
  obtain rfl := h.eq hb'
  intro c hc
  obtain ⟨r, hr, -⟩ := hpassed c hc
  exact (Process.returns_iff_exists_result? hmemoryless).2 ⟨r, hr⟩

end OneCase

/-- The suite of one case that passes ends with success on two workers, and then on three. -/
theorem verdict_of_suite_oneCase :
    Suite.Player.Lawful Suite.run ∧
    (∃ b, Ready (OneCase.arguments 2) (.ok OneCase.client) OneCase.files b) ∧
    (∀ b, Ready (OneCase.arguments 2) (.ok OneCase.client) OneCase.files b →
      b.client.Memoryless ∧ b.Returns (OneCase.arguments 2)) ∧
    (2 ≤ Suite.maxWorkers ∧ 3 ≤ Suite.maxWorkers) ∧
    (run (OneCase.arguments 2) (.ok OneCase.client) ⟨.epoch, 0⟩ OneCase.files).verdict =
      .ended true ∧
    (run (OneCase.arguments 3) (.ok OneCase.client) ⟨.epoch, 0⟩ OneCase.files).verdict =
      .ended true := by
  have hmax : 2 ≤ Suite.maxWorkers ∧ 3 ≤ Suite.maxWorkers := by decide
  obtain ⟨-, -, -, -, -, hany, -⟩ := verdict_of_suite Suite.lawful_run
    (OneCase.arguments 2) (.ok OneCase.client) ⟨.epoch, 0⟩ OneCase.files
  obtain ⟨hpassed_iff, hworkers⟩ := hany (fun _ => OneCase.returns) hmax.1
  obtain ⟨b, hb, hpassed⟩ := OneCase.exists_ready 2
  have htwo := hpassed_iff.2 ⟨b, hb, hpassed⟩
  refine ⟨Suite.lawful_run, ⟨b, hb⟩, fun _ => OneCase.returns, hmax, htwo, ?_⟩
  exact (hworkers Suite.run 3 Suite.lawful_run hmax.2).trans htwo

/-- **More workers than there can be take a run down** whose cases all pass, although
`Arguments.read` takes the words that ask for them. -/
theorem exists_passing_suite_without_success :
    ¬ ∀ (vars : Variables) (words : List String) (a : Arguments) (client : Client)
        (now : LocalTime) (files : Files.Tree),
      Arguments.read vars words = .ok a → client.Memoryless →
      (∀ b, Ready a (.ok client) files b → b.Returns a) →
      ((run a (.ok client) now files).verdict = .ended true ↔
        ∃ b, Ready a (.ok client) files b ∧
          ∀ c ∈ b.cases, ∃ r, b.resultAlone? a c = some r ∧ r.passed = true) := by
  intro h
  have hread : Arguments.read [] (OneCase.words "2305843009213693952") =
      .ok (OneCase.arguments 2305843009213693952) := by decide +kernel
  obtain ⟨b, hb, hpassed⟩ := OneCase.exists_ready 2305843009213693952
  have hsuccess := (h [] _ _ OneCase.client ⟨.epoch, 0⟩ OneCase.files hread
    OneCase.memoryless_client fun _ hb => (OneCase.returns hb).2).2 ⟨b, hb, hpassed⟩
  -- the suite has no results on so many workers
  rw [run, runWith_verdict_of_ready hb] at hsuccess
  have hnone : b.results? Suite.run (OneCase.arguments 2305843009213693952) = none := by
    rw [Begun.results?, Suite.run, if_neg (by decide), if_pos (by decide)]
  rw [hnone] at hsuccess
  cases hsuccess

end RestCase.Command
