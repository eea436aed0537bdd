/-
# RestCase.Proofs.Decoding.Records — what decoders accept

A decoder is a chain of steps, each of which may fail; here each kind of step is inverted once.  A
field is read when its place is free and its value is one (`fill_bind_eq_ok_iff`), a list is decoded
item by item (`mapM_eq_ok_iff`), and a record is a fold over its entries, so that what one field
keeps is kept by the whole record (`foldlM_preserves`).  When no key comes twice is
`distinctEntries_eq_ok_iff`.
-/
import Mathlib.Data.List.Forall2
import RestCase.Decoding.Value

namespace RestCase.Decoding

variable {α β δ : Type} {d : Dialect}

/-! ## Steps -/

@[simp] theorem pure_eq_ok (a : α) : (pure a : Decoded α) = .ok a := rfl

@[simp] theorem ok_bind (a : α) (f : α → Decoded β) : (Except.ok a >>= f) = f a := rfl

theorem bind_eq_ok_iff {ε : Type} {x : Except ε α} {f : α → Except ε β} {b : β} :
    (x >>= f) = .ok b ↔ ∃ a, x = .ok a ∧ f a = .ok b := by
  cases x with
  | error e => simp [bind, Except.bind]
  | ok a => simp [bind, Except.bind]

theorem map_eq_ok_iff {x : Decoded α} {f : α → β} {b : β} :
    x.map f = .ok b ↔ ∃ a, x = .ok a ∧ f a = b := by
  cases x with
  | error e => simp [Except.map]
  | ok a => simp [Except.map]

theorem mapError_eq_ok_iff {ε ε' : Type} {x : Except ε α} {f : ε → ε'} {a : α} :
    x.mapError f = .ok a ↔ x = .ok a := by
  cases x with
  | error e => simp [Except.mapError]
  | ok b => simp [Except.mapError]

theorem fill_eq_ok_iff {field : String} {place p : Option α} {value : Decoded α} :
    fill field place value = .ok p ↔ place = none ∧ ∃ x, value = .ok x ∧ some x = p := by
  unfold fill
  cases place with
  | none => simp [map_eq_ok_iff]
  | some y => simp

/-- **A field is read** into its place `g`, which is free, when its value is one. -/
theorem fill_bind_eq_ok_iff {field : String} {place : Option α} {value : Decoded α}
    {g : Option α → δ} {r : δ} :
    (fill field place value >>= fun p => pure (g p)) = .ok r ↔
      place = none ∧ ∃ x, value = .ok x ∧ g (some x) = r := by
  rw [bind_eq_ok_iff]
  constructor
  · rintro ⟨p, hp, hr⟩
    obtain ⟨hfree, x, hx, rfl⟩ := fill_eq_ok_iff.1 hp
    exact ⟨hfree, x, hx, Except.ok.inj hr⟩
  · rintro ⟨hfree, x, hx, rfl⟩
    exact ⟨some x, fill_eq_ok_iff.2 ⟨hfree, x, hx, rfl⟩, rfl⟩

@[simp] theorem fill_none_ok {field : String} {x : α} : fill field none (.ok x) = .ok (some x) :=
  rfl

@[simp] theorem required_some {field : String} {x : α} : required field (some x) = .ok x := rfl

theorem required_eq_ok_iff {field : String} {place : Option α} {x : α} :
    required field place = .ok x ↔ place = some x := by
  cases place with
  | none => simp [required]
  | some y => simp [required]

/-- A value that may be null is null, or is decoded. -/
theorem optional_eq_ok_iff {decode : Node → Decoded α} {v : Node} {x : Option α} :
    optional decode v = .ok x ↔
      (v = .null ∧ x = none) ∨ (v ≠ .null ∧ ∃ a, decode v = .ok a ∧ some a = x) := by
  by_cases hv : v = .null
  · subst hv
    simp [optional, eq_comm]
  · have hsome : optional decode v = (decode v).map some := by
      unfold optional
      split
      · exact absurd rfl hv
      · rfl
    simp [hsome, hv, map_eq_ok_iff]

/-! ## Lists -/

/-- **Items are decoded one by one**: the results of `List.mapM` are partners of the items, in
order. -/
theorem mapM_eq_ok_iff {ε : Type} {f : α → Except ε β} {l : List α} {m : List β} :
    l.mapM f = .ok m ↔ List.Forall₂ (fun a b => f a = .ok b) l m := by
  induction l generalizing m with
  | nil => cases m <;> simp [pure, Except.pure]
  | cons a l ih =>
    rw [List.mapM_cons, bind_eq_ok_iff, List.forall₂_cons_left_iff]
    constructor
    · rintro ⟨b, hb, hrest⟩
      obtain ⟨r, hr, hm⟩ := bind_eq_ok_iff.1 hrest
      exact ⟨b, r, hb, ih.1 hr, (Except.ok.inj hm).symm⟩
    · rintro ⟨b, r, hb, hr, rfl⟩
      exact ⟨b, hb, bind_eq_ok_iff.2 ⟨r, ih.2 hr, rfl⟩⟩

/-- Each item of a list has a partner exactly if the list has one. -/
theorem exists_forall₂_iff {α β : Type} {R : α → β → Prop} {l : List α} :
    (∃ m, List.Forall₂ R l m) ↔ ∀ a ∈ l, ∃ b, R a b := by
  induction l with
  | nil => simp
  | cons a l ih =>
    rw [List.forall_mem_cons, ← ih]
    constructor
    · rintro ⟨m, h⟩
      cases h with
      | cons hb hm => exact ⟨⟨_, hb⟩, ⟨_, hm⟩⟩
    · rintro ⟨⟨b, hb⟩, ⟨m, hm⟩⟩
      exact ⟨b :: m, .cons hb hm⟩

theorem list_eq_ok_iff {decode : Node → Decoded α} {v : Node} {l : List α} :
    list d decode v = .ok l ↔
      ∃ items, itemsOf d v = .ok items ∧
        List.Forall₂ (fun w a => decode w = .ok a) items l := by
  have hbind : list d decode v = itemsOf d v >>= fun items => items.mapM decode := rfl
  simp only [hbind, bind_eq_ok_iff, mapM_eq_ok_iff]

/-! ## Records -/

/-- What every field keeps is kept along the entries of a record. -/
theorem foldlM_preserves {P : δ → Prop} {Q : α → Prop} {f : δ → α → Decoded δ}
    (hf : ∀ r r' a, Q a → P r → f r a = .ok r' → P r') :
    ∀ {l : List α} {r r' : δ}, (∀ a ∈ l, Q a) → P r → l.foldlM f r = .ok r' → P r'
  | [], r, r', _, hr, h => by
    rw [List.foldlM_nil] at h
    exact Except.ok.inj h ▸ hr
  | a :: l, r, r', hl, hr, h => by
    rw [List.foldlM_cons] at h
    obtain ⟨s, hs, hrest⟩ := bind_eq_ok_iff.1 h
    have hPs : P s := hf r s a (hl a List.mem_cons_self) hr hs
    exact foldlM_preserves hf (fun b hb => hl b (List.mem_cons_of_mem a hb)) hPs hrest

/-- What every field keeps is kept by a record that is written as an array. -/
theorem readPositions_preserves {P : δ → Prop} {Q : Node → Prop} {layout : Layout}
    {add : δ → String → Node → Decoded δ}
    (hadd : ∀ r r' field v, Q v → P r → add r field v = .ok r' → P r') :
    ∀ {position : Nat} {fields : List (String × Bool)} {items : List Node} {r r' : δ},
      (∀ v ∈ items, Q v) → P r → readPositions layout add position fields r items = .ok r' → P r'
  | _, [], [], r, r', _, hr, h => by
    rw [readPositions] at h
    exact Except.ok.inj h ▸ hr
  | _, [], _ :: _, r, r', _, _, h => by
    rw [readPositions] at h
    cases h
  | position, (field, _) :: fields, v :: items, r, r', hitems, hr, h => by
    rw [readPositions] at h
    obtain ⟨s, hs, hrest⟩ := bind_eq_ok_iff.1 h
    have hPs : P s := hadd r s field v (hitems v List.mem_cons_self) hr hs
    exact readPositions_preserves hadd (fun w hw => hitems w (List.mem_cons_of_mem v hw)) hPs hrest
  | position, (_, free) :: fields, [], r, r', hitems, hr, h => by
    rw [readPositions] at h
    split at h
    · exact readPositions_preserves hadd hitems hr h
    · cases h

/-! ## Keys that come once -/

theorem distinctItems_eq_ok_iff {l : List Node} :
    distinctItems l = .ok () ↔ ∀ v ∈ l, distinct v = .ok () := by
  induction l with
  | nil => simp [distinctItems]
  | cons v l ih =>
    rw [distinctItems, List.forall_mem_cons, ← ih]
    cases distinct v with
    | error e => simp
    | ok _ => simp

/-- **No key comes twice** (`distinctEntries`) when each is apart from those before it and those
seen. -/
theorem distinctEntries_eq_ok_iff {l : List (Node × Node)} {seen : List Node} :
    distinctEntries seen l = .ok () ↔
      (∀ e ∈ l, distinct e.1 = .ok () ∧ distinct e.2 = .ok ()) ∧
        l.Pairwise (fun a b => b.1.same a.1 = false) ∧
        ∀ e ∈ l, ∀ k ∈ seen, e.1.same k = false := by
  induction l generalizing seen with
  | nil => simp [distinctEntries]
  | cons e l ih =>
    obtain ⟨k, v⟩ := e
    rw [distinctEntries]
    cases hk : distinct k with
    | error e => simp [hk]
    | ok _ =>
      by_cases hseen : seen.any (Node.same k) = true
      · obtain ⟨x, hx, hsame⟩ := List.any_eq_true.1 hseen
        have hnot : ¬ ∀ k' ∈ seen, k.same k' = false := fun h => by simp [h x hx] at hsame
        simp [hseen, hnot]
      · have hnew : ∀ k' ∈ seen, k.same k' = false := by simpa using hseen
        cases hv : distinct v with
        | error e => simp [hseen, hv]
        | ok _ =>
          rw [if_neg hseen]
          show distinctEntries (k :: seen) l = .ok () ↔ _
          rw [ih]
          simp only [List.pairwise_cons, List.forall_mem_cons, hk, hv, and_self, true_and]
          -- the key stands among those seen by the entries behind it
          constructor
          · rintro ⟨hparts, hapart, hbehind⟩
            exact ⟨hparts, ⟨fun b hb => (hbehind b hb).1, hapart⟩, hnew,
              fun b hb => (hbehind b hb).2⟩
          · rintro ⟨hparts, ⟨hk', hapart⟩, -, hbehind⟩
            exact ⟨hparts, hapart, fun b hb => ⟨hk' b hb, hbehind b hb⟩⟩

end RestCase.Decoding
