/-
# RestCase.Proofs.Process.Course — courses of a process

A process is a tree of which the answers choose one branch.  A *course* (`Course`) is such a branch
told from the root to its leaf: the pauses and the exchanges in order, and the result at the end, or
no result where the branch breaks off.  Playing a process with a client is following the one course
on which every exchange carries the answer of that client (`play_eq_iff`), so whatever holds of
every course holds for every client, and a statement about a client speaks of courses and nothing
else.

A course of two processes, one after the other, is a course of the first and, where that one gives a
result, a course of the second (`course_bind_some`, `course_bind_none`).
-/
import RestCase.Run.Process

namespace RestCase

/-- One thing that a process does: a pause, or a request with what came back for it. -/
inductive Event where
  | nap (time : Nat)
  | exchange (request : Request) (reply : Reply)

/-! ## Events in a journal -/

namespace Journal

/-- The journal with one more event. -/
def add (j : Journal) : Event → Journal
  | .nap t => { j with naps := j.naps ++ [t] }
  | .exchange r _ => { j with requests := j.requests ++ [r] }

/-- The journal with events, one after the other. -/
def after (j : Journal) (l : List Event) : Journal := l.foldl add j

@[simp] theorem after_nil (j : Journal) : j.after [] = j := rfl

@[simp] theorem after_cons (j : Journal) (e : Event) (l : List Event) :
    j.after (e :: l) = (j.add e).after l := rfl

theorem after_append (j : Journal) (l₁ l₂ : List Event) :
    j.after (l₁ ++ l₂) = (j.after l₁).after l₂ :=
  List.foldl_append

end Journal

/-- The request of an exchange. -/
def Event.request? : Event → Option Request
  | .nap _ => none
  | .exchange r _ => some r

/-- The requests among events, in order. -/
def requestsOf (l : List Event) : List Request := l.filterMap Event.request?

theorem requestsOf_append (l₁ l₂ : List Event) :
    requestsOf (l₁ ++ l₂) = requestsOf l₁ ++ requestsOf l₂ :=
  List.filterMap_append

/-- The journal gains exactly the requests of the events (`requestsOf`). -/
theorem Journal.requests_after (j : Journal) (l : List Event) :
    (j.after l).requests = j.requests ++ requestsOf l := by
  induction l generalizing j with
  | nil => simp [requestsOf]
  | cons e l ih =>
    rw [after_cons, ih]
    cases e with
    | nap t => rfl
    | exchange r reply => simp [add, requestsOf, Event.request?]

/-- The pause of an event, if it is one. -/
def Event.nap? : Event → Option Nat
  | .nap t => some t
  | .exchange _ _ => none

/-- The pauses among events, in order. -/
def napsOf (l : List Event) : List Nat := l.filterMap Event.nap?

theorem napsOf_append (l₁ l₂ : List Event) : napsOf (l₁ ++ l₂) = napsOf l₁ ++ napsOf l₂ :=
  List.filterMap_append

/-- The journal gains exactly the pauses of the events (`napsOf`). -/
theorem Journal.naps_after (j : Journal) (l : List Event) :
    (j.after l).naps = j.naps ++ napsOf l := by
  induction l generalizing j with
  | nil => simp [napsOf]
  | cons e l ih =>
    rw [after_cons, ih]
    cases e with
    | nap t => simp [add, napsOf, Event.nap?]
    | exchange r reply => rfl

/-- The reply of an exchange. -/
def Event.reply? : Event → Option Reply
  | .nap _ => none
  | .exchange _ reply => some reply

/-- The replies among events, in order. -/
def repliesOf (l : List Event) : List Reply := l.filterMap Event.reply?

theorem repliesOf_append (l₁ l₂ : List Event) :
    repliesOf (l₁ ++ l₂) = repliesOf l₁ ++ repliesOf l₂ :=
  List.filterMap_append

/-! ## Events that a client answers -/

/-- Every reply among the `Event`s is the one that the client gives to the requests so far. -/
def Client.Answers (client : Client) : Journal → List Event → Prop
  | _, [] => True
  | j, .nap t :: l => Client.Answers client (j.add (.nap t)) l
  | j, .exchange r reply :: l =>
    reply = client (j.requests ++ [r]) ∧ Client.Answers client (j.add (.exchange r reply)) l

theorem answers_append {client : Client} {j : Journal} {l₁ l₂ : List Event} :
    client.Answers j (l₁ ++ l₂) ↔ client.Answers j l₁ ∧ client.Answers (j.after l₁) l₂ := by
  induction l₁ generalizing j with
  | nil => simp [Client.Answers]
  | cons e l ih =>
    cases e with
    | nap t => exact ih
    | exchange r reply =>
      simp only [List.cons_append, Client.Answers, Journal.after_cons, ih, and_assoc]

/-- What a client replies to requests, one after the other, that follow the ones sent before: one
`Reply` for each. -/
def Client.replies (client : Client) : List Request → List Request → List Reply
  | _, [] => []
  | sent, r :: rest => client (sent ++ [r]) :: Client.replies client (sent ++ [r]) rest

/-- The replies among answered events are those of the client to the requests among them. -/
theorem Client.Answers.repliesOf_eq {client : Client} {j : Journal} {l : List Event}
    (h : client.Answers j l) : repliesOf l = client.replies j.requests (requestsOf l) := by
  induction l generalizing j with
  | nil => rfl
  | cons e l ih =>
    cases e with
    | nap t => exact ih (j := j.add (.nap t)) h
    | exchange r reply =>
      obtain ⟨rfl, h⟩ := h
      exact congrArg (List.cons _) (ih h)

namespace Process

variable {α β : Type}

/-! ## Courses -/

/-- What is done along one branch of a process, and the result at its end; there is none where the
branch breaks off.  `Client.Answers` picks the branch that a client takes. -/
inductive Course : Process α → List Event → Option α → Prop
  | done (a : α) : Course (.done a) [] (some a)
  | broken : Course .broken [] none
  | nap {t : Nat} {p : Process α} {l : List Event} {o : Option α} :
      Course p l o → Course (.nap t p) (.nap t :: l) o
  | send {r : Request} {k : Reply → Process α} {reply : Reply} {l : List Event} {o : Option α} :
      Course (k reply) l o → Course (.send r k) (.exchange r reply :: l) o

theorem course_done_iff {a : α} {l : List Event} {o : Option α} :
    (done a).Course l o ↔ l = [] ∧ o = some a := by
  constructor
  · intro h
    cases h
    exact ⟨rfl, rfl⟩
  · rintro ⟨rfl, rfl⟩
    exact .done a

theorem course_broken_iff {l : List Event} {o : Option α} :
    (broken : Process α).Course l o ↔ l = [] ∧ o = none := by
  constructor
  · intro h
    cases h
    exact ⟨rfl, rfl⟩
  · rintro ⟨rfl, rfl⟩
    exact .broken

theorem course_nap_iff {t : Nat} {p : Process α} {l : List Event} {o : Option α} :
    (nap t p).Course l o ↔ ∃ l', l = .nap t :: l' ∧ p.Course l' o := by
  constructor
  · intro h
    cases h with
    | nap h => exact ⟨_, rfl, h⟩
  · rintro ⟨l', rfl, h⟩
    exact .nap h

theorem course_send_iff {r : Request} {k : Reply → Process α} {l : List Event} {o : Option α} :
    (send r k).Course l o ↔ ∃ reply l', l = .exchange r reply :: l' ∧ (k reply).Course l' o := by
  constructor
  · intro h
    cases h with
    | send h => exact ⟨_, _, rfl, h⟩
  · rintro ⟨reply, l', rfl, h⟩
    exact .send h

/-! ## One process after another -/

/-- A course with a result goes on with any course of the process that the result chooses. -/
theorem Course.bind {p : Process α} {f : α → Process β} {l₁ l₂ : List Event} {a : α} {o : Option β}
    (h₁ : p.Course l₁ (some a)) (h₂ : (f a).Course l₂ o) : (p.bind f).Course (l₁ ++ l₂) o := by
  generalize ho : some a = o' at h₁
  induction h₁ with
  | done c =>
    obtain rfl := Option.some.inj ho
    exact h₂
  | broken => cases ho
  | nap _ ih => exact .nap (ih ho)
  | send _ ih => exact .send (ih ho)

/-- A course that breaks off does so whatever would have come after it. -/
theorem Course.bind_broken {p : Process α} {l : List Event} (f : α → Process β)
    (h : p.Course l none) : (p.bind f).Course l none := by
  generalize ho : (none : Option α) = o at h
  induction h with
  | done c => cases ho
  | broken => exact .broken
  | nap _ ih => exact .nap (ih ho)
  | send _ ih => exact .send (ih ho)

/-- A course of two processes either breaks off in the first or goes on from a result of it. -/
theorem Course.of_bind {p : Process α} {f : α → Process β} {l : List Event} {o : Option β}
    (h : (p.bind f).Course l o) :
    (o = none ∧ p.Course l none) ∨
      ∃ l₁ l₂ a, l = l₁ ++ l₂ ∧ p.Course l₁ (some a) ∧ (f a).Course l₂ o := by
  -- the second process stands at the leaves of the first, so the induction is on the first alone
  induction p generalizing l with
  | done a => exact Or.inr ⟨[], l, a, rfl, .done a, h⟩
  | broken =>
    obtain ⟨rfl, rfl⟩ := course_broken_iff.1 h
    exact Or.inl ⟨rfl, .broken⟩
  | nap t p ih =>
    obtain ⟨l', rfl, hp⟩ := course_nap_iff.1 h
    rcases ih hp with ⟨ho, h₁⟩ | ⟨l₁, l₂, a, rfl, h₁, h₂⟩
    · exact Or.inl ⟨ho, .nap h₁⟩
    · exact Or.inr ⟨.nap t :: l₁, l₂, a, rfl, .nap h₁, h₂⟩
  | send r k ih =>
    obtain ⟨reply, l', rfl, hk⟩ := course_send_iff.1 h
    rcases ih reply hk with ⟨ho, h₁⟩ | ⟨l₁, l₂, a, rfl, h₁, h₂⟩
    · exact Or.inl ⟨ho, .send h₁⟩
    · exact Or.inr ⟨.exchange r reply :: l₁, l₂, a, rfl, .send h₁, h₂⟩

/-- **A finished course of two processes** splits where the first of them gives its result, as
`Process.bind` goes on from there. -/
theorem course_bind_some {p : Process α} {f : α → Process β} {l : List Event} {b : β} :
    (p.bind f).Course l (some b) ↔
      ∃ l₁ l₂ a, l = l₁ ++ l₂ ∧ p.Course l₁ (some a) ∧ (f a).Course l₂ (some b) := by
  constructor
  · intro h
    rcases h.of_bind with ⟨ho, -⟩ | h
    · cases ho
    · exact h
  · rintro ⟨l₁, l₂, a, rfl, h₁, h₂⟩
    exact h₁.bind h₂

/-- **A course of two processes that breaks off** does so in the first, or in the second after a
result of the first. -/
theorem course_bind_none {p : Process α} {f : α → Process β} {l : List Event} :
    (p.bind f).Course l none ↔
      p.Course l none ∨
        ∃ l₁ l₂ a, l = l₁ ++ l₂ ∧ p.Course l₁ (some a) ∧ (f a).Course l₂ none := by
  constructor
  · intro h
    rcases h.of_bind with ⟨-, h⟩ | h
    · exact Or.inl h
    · exact Or.inr h
  · rintro (h | ⟨l₁, l₂, a, rfl, h₁, h₂⟩)
    · exact h.bind_broken f
    · exact h₁.bind h₂

/-! ## Courses and plays -/

/-- **Playing is following the course that the client answers.**  A play has exactly the result of
the `Course` that the client `Answers`, and its journal is the first one with the events of the
course (`Journal.after`). -/
theorem play_eq_iff {client : Client} {p : Process α} {j j' : Journal} {o : Option α} :
    p.play client j = (o, j') ↔
      ∃ l, p.Course l o ∧ client.Answers j l ∧ j.after l = j' := by
  -- the journal stays arbitrary: each event moves it on, and the client answers by what it holds
  induction p generalizing j with
  | done a =>
    rw [play, Prod.mk.injEq]
    constructor
    · rintro ⟨rfl, rfl⟩
      exact ⟨[], .done a, trivial, rfl⟩
    · rintro ⟨l, h, -, rfl⟩
      obtain ⟨rfl, rfl⟩ := course_done_iff.1 h
      exact ⟨rfl, rfl⟩
  | broken =>
    rw [play, Prod.mk.injEq]
    constructor
    · rintro ⟨rfl, rfl⟩
      exact ⟨[], .broken, trivial, rfl⟩
    · rintro ⟨l, h, -, rfl⟩
      obtain ⟨rfl, rfl⟩ := course_broken_iff.1 h
      exact ⟨rfl, rfl⟩
  | nap t p ih =>
    rw [play]
    refine Iff.trans ih ?_
    constructor
    · rintro ⟨l, h, ha, hj⟩
      exact ⟨.nap t :: l, .nap h, ha, hj⟩
    · rintro ⟨l, h, ha, hj⟩
      obtain ⟨l', rfl, hp⟩ := course_nap_iff.1 h
      exact ⟨l', hp, ha, hj⟩
  | send r k ih =>
    rw [play]
    refine Iff.trans (ih _) ?_
    constructor
    · rintro ⟨l, h, ha, hj⟩
      exact ⟨.exchange r _ :: l, .send h, ⟨rfl, ha⟩, hj⟩
    · rintro ⟨l, h, ha, hj⟩
      obtain ⟨reply, l', rfl, hk⟩ := course_send_iff.1 h
      obtain ⟨rfl, ha'⟩ := ha
      exact ⟨l', hk, ha', hj⟩

/-- A play of two processes (`Process.bind`) with a result is a play of the first, and one of the
second from the journal that the first has left. -/
theorem exists_play_of_bind {client : Client} {p : Process α} {f : α → Process β} {j j' : Journal}
    {b : β} (h : (p.bind f).play client j = (some b, j')) :
    ∃ a jm, p.play client j = (some a, jm) ∧ (f a).play client jm = (some b, j') := by
  rw [play_bind] at h
  rcases hp : p.play client j with ⟨_ | a, jm⟩
  · rw [hp] at h
    cases h
  · rw [hp] at h
    exact ⟨a, jm, rfl, h⟩

end Process

end RestCase
