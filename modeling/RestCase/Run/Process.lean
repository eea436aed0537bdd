/-
# RestCase.Run.Process — processes

A `Process` sends requests, goes on depending on the answers, pauses now and then, and in the end
gives a result or breaks down.  It is a tree: what it does is fixed, and only the answers choose the
branch.  Nothing is said about who answers; a `Client` that does so is a function of the requests
sent so far, and `Process.play` follows it through the tree, keeping a `Journal`.

Playing a process and then its continuation is playing the two as one (`play_bind`), and a play only
ever adds to the journal (`play_journal`).
-/
import RestCase.Http.Request

namespace RestCase

/-- The reasons why a request got no answer, the outermost first. -/
abbrev SendFault := List String

/-- What comes back for a request. -/
abbrev Reply := Except SendFault Response

/-- A course of requests and pauses, in milliseconds.  It says what a program does and not who
answers: `Process.play` lets a `Client` do that. -/
inductive Process (α : Type) where
  | done (result : α)
  | broken
  | nap (time : Nat) (next : Process α)
  | send (request : Request) (next : Reply → Process α)

namespace Process

variable {α β γ : Type}

/-- One process and then another one, which its result chooses. -/
def bind : Process α → (α → Process β) → Process β
  | done a, f => f a
  | broken, _ => broken
  | nap t p, f => nap t (p.bind f)
  | send r k, f => send r fun reply => (k reply).bind f

instance : Monad Process where
  pure := done
  bind := bind

theorem bind_assoc (p : Process α) (f : α → Process β) (g : β → Process γ) :
    (p.bind f).bind g = p.bind fun a => (f a).bind g := by
  induction p with
  | done | broken => rfl
  | nap t p ih => simp [bind, ih]
  | send r k ih => simp [bind, ih]

/-- A value, if nothing broke down on the way to it. -/
def ofExcept {ε : Type} : Except ε α → Process α
  | .ok a => done a
  | .error _ => broken

end Process

/-! ## Playing a process -/

/-- What a process did: its requests and its pauses, each in order. -/
structure Journal where
  requests : List Request
  naps : List Nat
  deriving DecidableEq

/-- The journal of a process that did nothing. -/
def Journal.empty : Journal := ⟨[], []⟩

/-- The time of all pauses. -/
def Journal.napTime (j : Journal) : Nat := j.naps.foldl (· + ·) 0

/-- What one journal and then another one tell. -/
def Journal.append (a b : Journal) : Journal := ⟨a.requests ++ b.requests, a.naps ++ b.naps⟩

/-- A client answers a request, the last one in the list of all requests so far.  Hence an answer
may depend on everything that was asked before. -/
abbrev Client := List Request → Reply

/-- A client that opens no connection: to every request it says that it could not be sent. -/
def Client.offline : Client := fun sent =>
  .error ["Failed to send request to " ++ ((sent.getLast?.map Request.url).getD "")]

/-- The result of a process with a client, or nothing where it breaks down; and the journal, to
which every request and pause is added. -/
def Process.play (client : Client) {α : Type} : Process α → Journal → Option α × Journal
  | .done a, j => (some a, j)
  | .broken, j => (none, j)
  | .nap t p, j => p.play client { j with naps := j.naps ++ [t] }
  | .send r k, j =>
    let sent := j.requests ++ [r]
    (k (client sent)).play client { j with requests := sent }

namespace Process

variable {α β : Type}

theorem play_bind (client : Client) (p : Process α) (f : α → Process β) (j : Journal) :
    (p.bind f).play client j =
      match p.play client j with
      | (some a, j') => (f a).play client j'
      | (none, j') => (none, j') := by
  induction p generalizing j with
  | done | broken => rfl
  | nap t p ih => simp [bind, play, ih]
  | send r k ih => simp [bind, play, ih]

theorem play_journal (client : Client) (p : Process α) (j : Journal) :
    ∃ more, (p.play client j).2 = j.append more := by
  induction p generalizing j with
  | done | broken => exact ⟨.empty, by simp [play, Journal.append, Journal.empty]⟩
  | nap t p ih =>
    obtain ⟨more, h⟩ := ih { j with naps := j.naps ++ [t] }
    exact ⟨⟨more.requests, t :: more.naps⟩, by simp [play, h, Journal.append]⟩
  | send r k ih =>
    obtain ⟨more, h⟩ := ih (client (j.requests ++ [r])) { j with requests := j.requests ++ [r] }
    exact ⟨⟨r :: more.requests, more.naps⟩, by simp [play, h, Journal.append]⟩

end Process

end RestCase
