/-
# RestCase.Proofs.Process.Ends — ends of a process in company

A client that serves several processes at a time answers a request after whatever the others have
sent by then.  What a process can come to so is one of its *ends* (`EndsWith`): a result, or none
where it breaks down.  A play of the process alone comes to one of them (`endsWith_play`), an end of
two processes, one after the other, is an end of each (`EndsWith.of_bind`), and with a client that
answers by the last request alone there is no other end than that of the play
(`endsWith_iff_result?`).
-/
import RestCase.Proofs.Process.Memoryless

namespace RestCase.Process

variable {α β : Type} {client : Client}

/-- What a process can come to with a client that answers each request after any others: more ends
than `Process.play` has. -/
inductive EndsWith (client : Client) : Process α → Option α → Prop
  | done (a : α) : EndsWith client (.done a) (some a)
  | broken : EndsWith client .broken none
  | nap {t : Nat} {p : Process α} {o : Option α} :
      EndsWith client p o → EndsWith client (.nap t p) o
  | send {r : Request} {k : Reply → Process α} {o : Option α} (sent : List Request) :
      EndsWith client (k (client (sent ++ [r]))) o → EndsWith client (.send r k) o

/-- In no company does the process break down: `none` is no end of it (`EndsWith`). -/
def Returns (client : Client) (p : Process α) : Prop := ¬ p.EndsWith client none

/-- **A play comes to one of the ends** of the process: `Process.play` against `EndsWith`. -/
theorem endsWith_play (client : Client) (p : Process α) (j : Journal) :
    p.EndsWith client (p.play client j).1 := by
  induction p generalizing j with
  | done a => exact .done a
  | broken => exact .broken
  | nap t p ih => exact .nap (ih _)
  | send r k ih => exact .send j.requests (ih _ _)

/-- An end of two processes (`Process.bind`) is a breakdown of the first, or an end of the second
after a result of the first. -/
theorem EndsWith.of_bind {p : Process α} {f : α → Process β} {o : Option β}
    (h : (p.bind f).EndsWith client o) :
    (o = none ∧ p.EndsWith client none) ∨
      ∃ a, p.EndsWith client (some a) ∧ (f a).EndsWith client o := by
  -- the second process stands at the leaves of the first, so the induction is on the first alone
  induction p with
  | done a => exact Or.inr ⟨a, .done a, h⟩
  | broken =>
    cases h
    exact Or.inl ⟨rfl, .broken⟩
  | nap t p ih =>
    cases h with
    | nap h =>
      rcases ih h with ⟨ho, hp⟩ | ⟨a, hp, hf⟩
      · exact Or.inl ⟨ho, .nap hp⟩
      · exact Or.inr ⟨a, .nap hp, hf⟩
  | send r k ih =>
    cases h with
    | send sent h =>
      rcases ih _ h with ⟨ho, hp⟩ | ⟨a, hp, hf⟩
      · exact Or.inl ⟨ho, .send sent hp⟩
      · exact Or.inr ⟨a, .send sent hp, hf⟩

/-- **With a client that answers by the last request alone** (`Client.Memoryless`) a process has
one end, which is its `result?`. -/
theorem endsWith_iff_result? (hclient : client.Memoryless) {p : Process α} {o : Option α} :
    p.EndsWith client o ↔ p.result? client.replyTo = o := by
  constructor
  · intro h
    induction h with
    | done a => rfl
    | broken => rfl
    | nap _ ih => exact ih
    | send sent _ ih =>
      rw [result?, ← hclient.reply_eq sent]
      exact ih
  · rintro rfl
    rw [← play_fst_eq hclient p .empty]
    exact endsWith_play client p .empty

theorem returns_iff_exists_result? (hclient : client.Memoryless) {p : Process α} :
    p.Returns client ↔ ∃ a, p.result? client.replyTo = some a := by
  rw [Returns, endsWith_iff_result? hclient, ← ne_eq, Option.ne_none_iff_exists']

end RestCase.Process
