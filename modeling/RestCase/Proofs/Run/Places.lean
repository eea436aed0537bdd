/-
# RestCase.Proofs.Run.Places — what turns keep place by place

A turn changes one task of a pool, and the slot of that task at most.  So what is said of each task
and its slot (`Each`) holds after every turn as soon as a task that enters, acts or is collected
keeps it (`Kept`, `Each.turn`, `Each.goes`).  The condition on collected tasks is the one place
where the slots come in: a result has to carry the place of its own task.  What then stands in the
results of a settled pool is `Each.results_entry`.

The two invariants of suites, `Pool.Sound` and `Stage.Comes`, are instances.
-/
import Mathlib.Logic.Relation
import RestCase.Run.Pool

namespace RestCase.Pool

variable {P : Nat → TestCase → Stage → Option CaseResult → Prop} {env : Environment}
  {client : Client} {workers : Nat} {cases : List TestCase} {p q : Pool}

/-! ## Places -/

/-- There are a task and a slot for every case, and what is said of a place holds of the `Stage`
and the slot there. -/
structure Each (P : Nat → TestCase → Stage → Option CaseResult → Prop) (cases : List TestCase)
    (p : Pool) : Prop where
  length_tasks : p.tasks.length = cases.length
  length_slots : p.slots.length = cases.length
  stage : ∀ (i : Nat) (c : TestCase) (t : Stage) (slot : Option CaseResult),
    cases[i]? = some c → p.tasks[i]? = some t → p.slots[i]? = some slot → P i c t slot

theorem spawned_getElem? [Pattern.Engine] [Url.Names] (env : Environment) (place i : Nat)
    (cases : List TestCase) :
    (spawned env place cases)[i]? =
      cases[i]?.map fun c => .waiting (taskBody env (place + i) c) := by
  induction cases generalizing place i with
  | nil => rfl
  | cons c r ih =>
    cases i with
    | zero => rfl
    | succ i =>
      rw [spawned, List.getElem?_cons_succ, List.getElem?_cons_succ, ih, Nat.add_assoc,
        Nat.add_comm 1 i]

theorem each_start [Pattern.Engine] [Url.Names]
    (h : ∀ i c, P i c (.waiting (taskBody env i c)) none) :
    Each P cases (start env cases) where
  length_tasks := length_start_tasks env cases
  length_slots := List.length_replicate
  stage := by
    intro i c t slot hc ht hslot
    have hspawned : (start env cases).tasks[i]? = some (.waiting (taskBody env i c)) := by
      rw [start, spawned_getElem?, hc, Nat.zero_add]
      rfl
    obtain rfl := Option.some.inj (hspawned.symm.trans ht)
    obtain rfl : slot = none := List.eq_of_mem_replicate (List.mem_of_getElem? hslot)
    exact h i c

/-! ## Changes at one place -/

/-- A change at one place keeps what is said of each if it keeps what is said of that one. -/
theorem Each.change (h : Each P cases p) {i : Nat} {t t' : Stage}
    {slots : List (Option CaseResult)} (ht : p.tasks[i]? = some t)
    (hlength : slots.length = p.slots.length)
    (hother : ∀ k, k ≠ i → slots[k]? = p.slots[k]?)
    (hself : ∀ c slot slot', cases[i]? = some c → p.slots[i]? = some slot →
      slots[i]? = some slot' → P i c t slot → P i c t' slot')
    (j : Journal) : Each P cases ⟨p.tasks.set i t', slots, j⟩ where
  length_tasks := by
    rw [List.length_set]
    exact h.length_tasks
  length_slots := hlength.trans h.length_slots
  stage := by
    intro k c u slot' hc hu hslot'
    by_cases hk : k = i
    · subst hk
      have hlt : k < p.tasks.length := (List.getElem?_eq_some_iff.1 ht).1
      obtain rfl : t' = u := Option.some.inj ((List.getElem?_set_self hlt).symm.trans hu)
      have hslots : k < p.slots.length := by
        rw [h.length_slots, ← h.length_tasks]
        exact hlt
      have hslot : p.slots[k]? = some p.slots[k] := List.getElem?_eq_getElem hslots
      exact hself c _ slot' hc hslot hslot' (h.stage k c t _ hc ht hslot)
    · have hu' : p.tasks[k]? = some u := by
        rw [← hu]
        exact (List.getElem?_set_ne (Ne.symm hk)).symm
      rw [hother k hk] at hslot'
      exact h.stage k c u slot' hc hu' hslot'

/-- A change of a task that leaves its slot alone. -/
theorem Each.changeTask (h : Each P cases p) {i : Nat} {t t' : Stage} (ht : p.tasks[i]? = some t)
    (hkeep : ∀ c slot, P i c t slot → P i c t' slot) (j : Journal) :
    Each P cases ⟨p.tasks.set i t', p.slots, j⟩ := by
  refine h.change ht rfl (fun _ _ => rfl) ?_ j
  intro c slot slot' _ hslot hslot' hs
  obtain rfl := Option.some.inj (hslot.symm.trans hslot')
  exact hkeep c _ hs

/-! ## Turns -/

/-- What is said of each place is kept by its task, whatever it does.  A result of an ended task
carries the place of the task, and its slot is still empty. -/
structure Kept (client : Client) (P : Nat → TestCase → Stage → Option CaseResult → Prop) :
    Prop where
  enter : ∀ {i c body slot}, P i c (.waiting body) slot → P i c (.running body) slot
  act : ∀ {i c t t' slot j j'}, t.Acts client j t' j' → P i c t slot → P i c t' slot
  ended : ∀ {i c found slot}, P i c (.ended found) slot →
    (∀ a ∈ found, a.1 = i) ∧ slot = none ∧ P i c (.joined found) (found.map Prod.snd)

/-- A result is put in the slot of its own case, whenever it is collected. -/
theorem Each.join (hP : Kept client P) (h : Each P cases p) {i : Nat}
    {found : Option (Nat × CaseResult)} (ht : p.tasks[i]? = some (.ended found)) (j : Journal) :
    Each P cases ⟨p.tasks.set i (.joined found), filled p.slots found, j⟩ := by
  cases found with
  | none =>
    refine h.changeTask ht ?_ j
    intro c slot hs
    obtain ⟨-, rfl, hjoined⟩ := hP.ended hs
    exact hjoined
  | some a =>
    obtain ⟨place, r⟩ := a
    have hlt : i < cases.length := by
      rw [← h.length_tasks]
      exact (List.getElem?_eq_some_iff.1 ht).1
    have hslots : i < p.slots.length := by
      rw [h.length_slots]
      exact hlt
    -- the place that the result carries is the one of its own task
    obtain rfl : place = i :=
      (hP.ended (h.stage i _ _ _ (List.getElem?_eq_getElem hlt) ht
        (List.getElem?_eq_getElem hslots))).1 (place, r) rfl
    refine h.change ht List.length_set ?_ ?_ j
    · intro k hk
      exact List.getElem?_set_ne (Ne.symm hk)
    · intro c slot slot' _ _ hslot' hs
      obtain rfl := Option.some.inj ((List.getElem?_set_self hslots).symm.trans hslot')
      exact (hP.ended hs).2.2

/-- **One turn keeps what is kept place by place**: `Pool.Turn` changes one place, and there what
is said is `Kept`. -/
theorem Each.turn (hP : Kept client P) (h : Each P cases p) (hturn : Turn client workers p q) :
    Each P cases q := by
  -- the number of permits says which turns there are, and nothing about what they keep
  cases hturn with
  | enter ht _ => exact h.changeTask ht (fun _ _ => hP.enter) p.journal
  | @act i t t' j ht hacts => exact h.changeTask ht (fun _ _ => hP.act hacts) j
  | join ht => exact h.join hP ht p.journal

/-- The turns of the tasks (`Pool.Turn`) can lead from one pool to another; no task dies on the
way but for its own case. -/
def Goes (client : Client) (workers : Nat) : Pool → Pool → Prop :=
  Relation.ReflTransGen (Turn client workers)

theorem Goes.step {q' : Pool} (h : Turn client workers p q) (h' : Goes client workers q q') :
    Goes client workers p q' :=
  Relation.ReflTransGen.head h h'

/-- **In whatever order the tasks take their turns** (`Goes`), what is kept place by place holds
to the end. -/
theorem Each.goes (hP : Kept client P) (h : Each P cases p) (hpq : Goes client workers p q) :
    Each P cases q := by
  induction hpq with
  | refl => exact h
  | tail _ hturn ih => exact ih.turn hP hturn

/-! ## Results of a settled pool -/

theorem Each.length_results (h : Each P cases p) : (p.results cases).length = cases.length := by
  rw [results, List.length_zipWith, h.length_slots, Nat.min_self]

/-- **What stands in the results of a settled pool** (`Pool.results`): at every place what the
slot of the collected task amounts to. -/
theorem Each.results_entry (h : Each P cases p) (hsettled : p.Settled) {i : Nat} {c : TestCase}
    (hc : cases[i]? = some c) :
    ∃ found slot, p.tasks[i]? = some (.joined found) ∧ P i c (.joined found) slot ∧
      (p.results cases)[i]? = some (Suite.taskResult c slot) := by
  have hlt : i < cases.length := (List.getElem?_eq_some_iff.1 hc).1
  have hltTasks : i < p.tasks.length := by
    rw [h.length_tasks]
    exact hlt
  have hltSlots : i < p.slots.length := by
    rw [h.length_slots]
    exact hlt
  obtain ⟨t, ht⟩ : ∃ t, p.tasks[i]? = some t := ⟨_, List.getElem?_eq_getElem hltTasks⟩
  obtain ⟨slot, hslot⟩ : ∃ slot, p.slots[i]? = some slot := ⟨_, List.getElem?_eq_getElem hltSlots⟩
  have hresult : (p.results cases)[i]? = some (Suite.taskResult c slot) := by
    rw [results, List.getElem?_zipWith, hc, hslot]
  have hjoined := hsettled t (List.mem_of_getElem? ht)
  cases t with
  | waiting body => cases hjoined
  | running rest => cases hjoined
  | ended found => cases hjoined
  | joined found => exact ⟨found, slot, ht, h.stage i c _ slot hc ht hslot, hresult⟩

end RestCase.Pool
