/-
# RestCase.Proofs.Process.Memoryless — clients that answer by the last request alone

A client knows all requests so far.  A `Memoryless` one makes use of the last of them only, and so
gives every request one answer, whenever it is sent and whoever has sent something before.  With
such a client the result of a process is a matter of its tree alone (`play_fst_eq`): it can be read
off without a journal, for two processes one after the other as well (`result?_bind`), and two
processes that share the client cannot disturb each other's results.
-/
import RestCase.Proofs.Process.Course

namespace RestCase

/-! ## One answer for each request -/

/-- What the client answers to a request does not depend on the requests before it:
`Client.replyTo` says it all. -/
def Client.Memoryless (client : Client) : Prop :=
  ∀ (sent sent' : List Request) (r : Request), client (sent ++ [r]) = client (sent' ++ [r])

/-- What the client answers to a request that nothing was sent before. -/
def Client.replyTo (client : Client) (r : Request) : Reply := client [r]

theorem Client.Memoryless.reply_eq {client : Client} (h : client.Memoryless)
    (sent : List Request) (r : Request) : client (sent ++ [r]) = client.replyTo r :=
  h sent [] r

namespace Process

variable {α β : Type}

/-! ## Results without a journal -/

/-- The result of a process when every request has one answer, or nothing where it is
`Process.broken`. -/
def result? (reply : Request → Reply) : Process α → Option α
  | done a => some a
  | broken => none
  | nap _ p => p.result? reply
  | send r k => (k (reply r)).result? reply

theorem result?_bind (reply : Request → Reply) (p : Process α) (f : α → Process β) :
    (p.bind f).result? reply = (p.result? reply).bind fun a => (f a).result? reply := by
  induction p with
  | done a => rfl
  | broken => rfl
  | nap t p ih => exact ih
  | send r k ih => exact ih (reply r)

theorem result?_ofExcept {ε : Type} (reply : Request → Reply) (x : Except ε α) :
    (ofExcept x).result? reply = x.toOption := by
  cases x <;> rfl

/-- **With a client that answers by the last request alone, the journal has no part in the
result** of a process, which is `result?`. -/
theorem play_fst_eq {client : Client} (h : client.Memoryless) (p : Process α) (j : Journal) :
    (p.play client j).1 = p.result? client.replyTo := by
  induction p generalizing j with
  | done a => rfl
  | broken => rfl
  | nap t p ih => exact ih _
  | send r k ih =>
    rw [play, result?, ← h.reply_eq j.requests r]
    exact ih _ _

/-- The end of a course that such a client `Answers` is the `result?` of the process. -/
theorem Course.result?_eq {client : Client} (h : client.Memoryless) {p : Process α}
    {l : List Event} {o : Option α} {j : Journal} (hp : p.Course l o)
    (ha : client.Answers j l) : p.result? client.replyTo = o := by
  rw [← play_fst_eq h p j, play_eq_iff.2 ⟨l, hp, ha, rfl⟩]

end Process

end RestCase
