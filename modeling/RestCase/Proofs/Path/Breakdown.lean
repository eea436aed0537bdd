/-
# RestCase.Proofs.Path.Breakdown — when a path cannot be followed

Following a path breaks down in two ways.  An index that is no natural number spoils the path for
every document.  A stride of zero does so only where an array is really cut with it: the chain has
to get there, through filters as well, the steps before it have to give entries, and both bounds
have to lie within the array.  `stallsIn` follows the second way along the chain, and
`evaluate_breaks_iff` says that there is no third.

A path whose indices are natural numbers and whose strides are positive is *sound* (`isSound`); it
can be followed in every document (`not_breaksOn_of_sound`).
-/
import RestCase.Path.Selection

namespace RestCase

/-! ## Computations that break down -/

/-- A computation that does not give a value but an error. -/
def Breaks {ε α : Type} (x : Except ε α) : Prop := ∃ e, x = .error e

section Breaks

variable {ε α β : Type}

@[simp] theorem not_breaks_ok (a : α) : ¬ Breaks (.ok a : Except ε α) := by
  rintro ⟨e, h⟩
  cases h

@[simp] theorem breaks_error (e : ε) : Breaks (.error e : Except ε α) := ⟨e, rfl⟩

theorem not_breaks_iff {x : Except ε α} : ¬ Breaks x ↔ ∃ a, x = .ok a := by
  cases x <;> simp

@[simp] theorem breaks_map {f : α → β} {x : Except ε α} : Breaks (x.map f) ↔ Breaks x := by
  cases x <;> simp [Except.map]

/-- A list of computations breaks down when one of them does. -/
theorem breaks_mapM {f : α → Except ε β} {l : List α} :
    Breaks (l.mapM f) ↔ ∃ x ∈ l, Breaks (f x) := by
  induction l with
  | nil =>
    rw [List.mapM_nil]
    simp [pure, Except.pure]
  | cons x l ih =>
    rw [List.mapM_cons]
    cases hx : f x with
    | error e => simp [bind, Except.bind, hx]
    | ok b =>
      have hrest : Breaks (l.mapM f) ↔ ∃ y ∈ x :: l, Breaks (f y) := by simp [ih, hx]
      rw [← hrest]
      cases l.mapM f <;> simp [bind, Except.bind, pure, Except.pure]

/-- A list of computations that all give values gives the list of the values. -/
theorem mapM_eq_ok_map {f : α → Except ε β} {g : α → β} {l : List α}
    (h : ∀ x ∈ l, f x = .ok (g x)) : l.mapM f = .ok (l.map g) := by
  induction l with
  | nil => rfl
  | cons x l ih =>
    obtain ⟨hx, hl⟩ := List.forall_mem_cons.1 h
    rw [List.mapM_cons, hx, ih hl]
    rfl

theorem breaks_filterAuxM {f : α → Except ε Bool} {l acc : List α} :
    Breaks (List.filterAuxM f l acc) ↔ ∃ x ∈ l, Breaks (f x) := by
  induction l generalizing acc with
  | nil => simp [List.filterAuxM, pure, Except.pure]
  | cons x l ih =>
    rw [List.filterAuxM]
    cases hx : f x with
    | error e => simp [bind, Except.bind, hx]
    | ok b => simp [bind, Except.bind, ih, hx]

/-- A selection breaks down when one of its questions does. -/
theorem breaks_filterM {f : α → Except ε Bool} {l : List α} :
    Breaks (l.filterM f) ↔ ∃ x ∈ l, Breaks (f x) := by
  have hmap : l.filterM f = (List.filterAuxM f l []).map List.reverse := by
    rw [List.filterM]
    cases List.filterAuxM f l [] <;> rfl
  rw [hmap, breaks_map, breaks_filterAuxM]

/-- A fold breaks down when one of its steps does, if the state has no say in that. -/
theorem breaks_foldlM {f : β → α → Except ε β} {P : α → Prop}
    (h : ∀ b x, Breaks (f b x) ↔ P x) (l : List α) (b : β) :
    Breaks (l.foldlM f b) ↔ ∃ x ∈ l, P x := by
  induction l generalizing b with
  | nil => simp [pure, Except.pure]
  | cons x l ih =>
    have hx := h b x
    rw [List.foldlM_cons]
    cases hf : f b x with
    | error e =>
      rw [hf] at hx
      have hP : P x := hx.1 (breaks_error e)
      simp [bind, Except.bind, hP]
    | ok b' =>
      rw [hf] at hx
      have hP : ¬ P x := fun hP => not_breaks_ok b' (hx.2 hP)
      simp [bind, Except.bind, ih, hP]

end Breaks

namespace Path

/-! ## Following a chain to a stride of zero -/

/-- The values that a condition is asked of: the items of an array, or a value itself. -/
def candidates : Json → List Json
  | .array items => items
  | v => [v]

theorem breaks_keep {holds : Json → Except Breakdown Bool} {P : Json → Prop}
    (h : ∀ w, Breaks (holds w) ↔ P w) (v : Json) :
    Breaks (keep holds v) ↔ ∃ w ∈ candidates v, P w := by
  simp only [← h]
  cases v <;> exact breaks_filterM

theorem breaks_onParts {f : Json → Except Breakdown (List Found)} {l : List Found} :
    Breaks (onParts f l) ↔ ∃ v, .part v ∈ l ∧ Breaks (f v) := by
  rw [onParts, breaks_map, breaks_mapM]
  constructor
  · rintro ⟨x, hx, h⟩
    cases x with
    | part v => exact ⟨v, hx, h⟩
    | computed v => exact absurd h (not_breaks_ok _)
    | nothing => exact absurd h (not_breaks_ok _)
  · rintro ⟨v, hv, h⟩
    exact ⟨.part v, hv, h⟩

/-- A slice breaks down (`sliceOf`) when its stride is zero and both bounds lie within the array. -/
theorem breaks_sliceOf {start stop : Int} {stride : Nat} {items : List Json} :
    Breaks (sliceOf start stop stride items) ↔
      stride = 0 ∧ (placeOf? start items.length).isSome ∧ (placeOf? stop items.length).isSome := by
  unfold sliceOf
  cases placeOf? start items.length <;> cases placeOf? stop items.length <;> simp
  split <;> simp [*]

variable [Pattern.Engine]

mutual
/-- Following a chain from a list of entries comes to an array that is cut with a stride of zero,
in one of its steps (`stalls`). -/
def stallsIn (document : Json) (entries : Bool) : List Step → List Found → Prop
  | [], _ => False
  | s :: r, l =>
    stalls document s l ∨
      ∃ l', follow document entries s l = .ok l' ∧ stallsIn document entries r l'

/-- Following one step does so. -/
def stalls (document : Json) : Step → List Found → Prop
  | .here chain, l => ∃ x ∈ l, stallsIn document (endsInCount chain) chain [x]
  | .slice start stop stride, l =>
    stride = 0 ∧ ∃ items, .part (.array items) ∈ l ∧
      (placeOf? start items.length).isSome ∧ (placeOf? stop items.length).isSome
  | .filter condition, l =>
    ∃ v, .part v ∈ l ∧ ∃ w ∈ candidates v, stallsOf document condition w
  | _, _ => False

/-- Asking a condition of a value does so; the right side of a connective is asked only where the
left one leaves the answer open. -/
def stallsOf (document : Json) : Filter → Json → Prop
  | .exist a, v => stallsAt document a v
  | .compare a _ b, v => stallsAt document a v ∨ stallsAt document b v
  | .and a b, v =>
    (∃ w ∈ candidates v, stallsOf document a w) ∨
      ∃ kept, keep (satisfies document a) v = .ok kept ∧ kept ≠ [] ∧
        ∃ w ∈ candidates v, stallsOf document b w
  | .or a b, v =>
    (∃ w ∈ candidates v, stallsOf document a w) ∨
      keep (satisfies document a) v = .ok [] ∧ ∃ w ∈ candidates v, stallsOf document b w
  | .not a, v => ∃ w ∈ candidates v, stallsOf document a w

/-- Finding the values of an operand does so. -/
def stallsAt (document : Json) : Operand → Json → Prop
  | .constant _, _ => False
  | .path chain, v => stallsIn document (endsInCount chain) chain [.part v]
end

mutual
theorem followChain_breaks_iff (document : Json) (entries : Bool) :
    ∀ (chain : List Step) (l : List Found),
      Breaks (followChain document entries chain l) ↔ stallsIn document entries chain l
  | [], l => by simp [followChain, stallsIn]
  | s :: r, l => by
    rw [followChain, stallsIn, ← follow_breaks_iff document entries s l]
    cases follow document entries s l with
    | error e => simp
    | ok l' => simp [followChain_breaks_iff document entries r l']

theorem follow_breaks_iff (document : Json) (entries : Bool) :
    ∀ (s : Step) (l : List Found),
      Breaks (follow document entries s l) ↔ stalls document s l
  | .root, l => by simp [follow, stalls]
  | .here chain, l => by
    rw [follow, stalls, breaks_map, breaks_mapM]
    simp only [followChain_breaks_iff document (endsInCount chain) chain]
  | .member name, l => by simp [follow, stalls, breaks_onParts]
  | .wildcard, l => by simp [follow, stalls, breaks_onParts]
  | .descent name, l => by simp [follow, stalls, breaks_onParts]
  | .descentAll, l => by simp [follow, stalls]
  | .length, l => by simp [follow, stalls]
  | .item numeral, l => by simp [follow, stalls, breaks_onParts]
  | .items numerals, l => by simp [follow, stalls, breaks_onParts]
  | .members names, l => by simp [follow, stalls, breaks_onParts]
  | .slice start stop stride, l => by
    rw [follow, stalls, breaks_onParts]
    constructor
    · rintro ⟨v, hv, h⟩
      cases v with
      | array items =>
        obtain ⟨hz, hb⟩ := breaks_sliceOf.1 (breaks_map.1 h)
        exact ⟨hz, items, hv, hb⟩
      | null | bool | int | float | string | object => exact absurd h (not_breaks_ok _)
    · rintro ⟨hz, items, hv, hb⟩
      exact ⟨.array items, hv, breaks_map.2 (breaks_sliceOf.2 ⟨hz, hb⟩)⟩
  | .filter condition, l => by
    rw [follow, stalls, breaks_onParts]
    simp only [breaks_map, breaks_keep (satisfies_breaks_iff document condition)]

theorem satisfies_breaks_iff (document : Json) :
    ∀ (f : Filter) (v : Json), Breaks (satisfies document f v) ↔ stallsOf document f v
  | .exist a, v => by
    rw [satisfies, stallsOf, breaks_map, operandValues_breaks_iff document a v]
  | .compare a relation b, v => by
    rw [satisfies, stallsOf, ← operandValues_breaks_iff document a v,
      ← operandValues_breaks_iff document b v]
    cases operandValues document a v <;> cases operandValues document b v <;>
      simp [bind, Except.bind, pure, Except.pure]
  | .and a b, v => by
    rw [satisfies, stallsOf, ← breaks_keep (satisfies_breaks_iff document a) v,
      ← breaks_keep (satisfies_breaks_iff document b) v]
    cases keep (satisfies document a) v with
    | error e => simp [bind, Except.bind]
    | ok kept =>
      -- an empty selection settles the answer before the right side is asked
      cases kept <;> cases keep (satisfies document b) v <;>
        simp [bind, Except.bind, pure, Except.pure]
  | .or a b, v => by
    rw [satisfies, stallsOf, ← breaks_keep (satisfies_breaks_iff document a) v,
      ← breaks_keep (satisfies_breaks_iff document b) v]
    cases keep (satisfies document a) v with
    | error e => simp [bind, Except.bind]
    | ok kept =>
      cases kept <;> cases keep (satisfies document b) v <;>
        simp [bind, Except.bind, pure, Except.pure]
  | .not a, v => by
    rw [satisfies, stallsOf, ← breaks_keep (satisfies_breaks_iff document a) v]
    cases keep (satisfies document a) v <;> simp [bind, Except.bind, pure, Except.pure]

theorem operandValues_breaks_iff (document : Json) :
    ∀ (a : Operand) (v : Json), Breaks (operandValues document a v) ↔ stallsAt document a v
  | .constant c, v => by simp [operandValues, stallsAt]
  | .path chain, v => by
    rw [operandValues, stallsAt, breaks_map,
      followChain_breaks_iff document (endsInCount chain) chain]
end

/-! ## Breaking down on a document -/

/-- A path cannot be followed in a document: it has an index that is no natural number of a signed
word (`indicesOkIn`), or it comes to cut an array with a stride of zero (`stallsIn`). -/
def BreaksOn (path : Path) (document : Json) : Prop :=
  indicesOkIn path.chain = false ∨
    stallsIn document (endsInCount path.chain) path.chain [.part document]

/-- **A path breaks down exactly where it cannot be followed**: `Path.evaluate` gives an error iff
it `BreaksOn` the document. -/
theorem evaluate_breaks_iff (path : Path) (document : Json) :
    Breaks (path.evaluate document) ↔ path.BreaksOn document := by
  rw [evaluate, breaks_map, select, BreaksOn]
  split
  · next h => rw [breaks_map, followChain_breaks_iff, h]; simp
  · next h => simp [Bool.eq_false_iff.2 h]

/-! ## Sound paths -/

mutual
/-- Every stride in a step is positive. -/
def stridesOk : Step → Bool
  | .slice _ _ stride => stride != 0
  | .here chain => stridesOkIn chain
  | .filter f => stridesOkOf f
  | _ => true

/-- Every stride in a chain is positive. -/
def stridesOkIn : List Step → Bool
  | [] => true
  | s :: r => stridesOk s && stridesOkIn r

/-- Every stride in a condition is positive. -/
def stridesOkOf : Filter → Bool
  | .exist a => stridesOkAt a
  | .compare a _ b => stridesOkAt a && stridesOkAt b
  | .and a b => stridesOkOf a && stridesOkOf b
  | .or a b => stridesOkOf a && stridesOkOf b
  | .not a => stridesOkOf a

/-- Every stride in an operand is positive. -/
def stridesOkAt : Operand → Bool
  | .constant _ => true
  | .path chain => stridesOkIn chain
end

mutual
theorem not_stallsIn {document : Json} {entries : Bool} :
    ∀ {chain : List Step} {l : List Found}, stridesOkIn chain = true →
      ¬ stallsIn document entries chain l
  | [], l, _ => by simp [stallsIn]
  | s :: r, l, h => by
    rw [stridesOkIn, Bool.and_eq_true] at h
    rw [stallsIn]
    rintro (hs | ⟨l', -, hr⟩)
    · exact not_stalls h.1 hs
    · exact not_stallsIn h.2 hr

theorem not_stalls {document : Json} :
    ∀ {s : Step} {l : List Found}, stridesOk s = true → ¬ stalls document s l
  | .root, _, _ | .member _, _, _ | .wildcard, _, _ | .descent _, _, _ | .descentAll, _, _
  | .length, _, _ | .item _, _, _ | .items _, _, _ | .members _, _, _ => by simp [stalls]
  | .here chain, l, h => by
    rw [stalls]
    rintro ⟨x, -, hx⟩
    exact not_stallsIn h hx
  | .slice start stop stride, l, h => by
    rw [stalls]
    rintro ⟨hz, -⟩
    simp [stridesOk, hz] at h
  | .filter f, l, h => by
    rw [stalls]
    rintro ⟨v, -, w, -, hw⟩
    exact not_stallsOf h hw

theorem not_stallsOf {document : Json} :
    ∀ {f : Filter} {v : Json}, stridesOkOf f = true → ¬ stallsOf document f v
  | .exist a, v, h => by
    rw [stallsOf]
    exact not_stallsAt h
  | .compare a _ b, v, h => by
    rw [stridesOkOf, Bool.and_eq_true] at h
    rw [stallsOf]
    rintro (ha | hb)
    · exact not_stallsAt h.1 ha
    · exact not_stallsAt h.2 hb
  | .and a b, v, h => by
    rw [stridesOkOf, Bool.and_eq_true] at h
    rw [stallsOf]
    rintro (⟨w, -, ha⟩ | ⟨_, -, -, w, -, hb⟩)
    · exact not_stallsOf h.1 ha
    · exact not_stallsOf h.2 hb
  | .or a b, v, h => by
    rw [stridesOkOf, Bool.and_eq_true] at h
    rw [stallsOf]
    rintro (⟨w, -, ha⟩ | ⟨-, w, -, hb⟩)
    · exact not_stallsOf h.1 ha
    · exact not_stallsOf h.2 hb
  | .not a, v, h => by
    rw [stridesOkOf] at h
    rw [stallsOf]
    rintro ⟨w, -, ha⟩
    exact not_stallsOf h ha

theorem not_stallsAt {document : Json} :
    ∀ {a : Operand} {v : Json}, stridesOkAt a = true → ¬ stallsAt document a v
  | .constant _, _, _ => by simp [stallsAt]
  | .path chain, v, h => by
    rw [stallsAt]
    exact not_stallsIn h
end

/-- Every index of the path is a natural number of a signed word (`indicesOkIn`), and every stride
is positive (`stridesOkIn`). -/
def isSound (path : Path) : Bool := indicesOkIn path.chain && stridesOkIn path.chain

/-- **A sound path can be followed in every document**: one that `isSound` never `BreaksOn` any. -/
theorem not_breaksOn_of_sound {path : Path} (h : path.isSound = true) (document : Json) :
    ¬ path.BreaksOn document := by
  rw [isSound, Bool.and_eq_true] at h
  rintro (hi | hs)
  · rw [h.1] at hi
    cases hi
  · exact not_stallsIn h.2 hs

end Path

end RestCase
