/-
# RestCase.Table — tables with texts as keys

A `Table` maps strings to values and lists its entries in strictly increasing order of the keys, the
order of the UTF-8 bytes (which is the order of code points).  The order is part of the type, so two
tables with the same look-ups are the same table (`Table.ext_find?`), and the order in which entries
were put in leaves no trace.

`find?_insert` and `find?_erase` say what one change does to every look-up.
-/

namespace RestCase

/-- A finite map from strings to values, listed in strictly increasing order of the keys, so that
equal maps are equal lists (`Table.ext_find?`). -/
structure Table (α : Type u) where
  entries : List (String × α)
  sorted : entries.Pairwise (fun a b => a.1 < b.1)

namespace Table

variable {α : Type u} {β : Type v}

/-- The table without entries. -/
def empty : Table α := ⟨[], .nil⟩

instance : Inhabited (Table α) := ⟨empty⟩
instance : EmptyCollection (Table α) := ⟨empty⟩

instance [BEq α] : BEq (Table α) := ⟨fun a b => a.entries == b.entries⟩

instance [DecidableEq α] : DecidableEq (Table α) := fun a b =>
  if h : a.entries = b.entries then
    .isTrue (by cases a; cases b; simp_all)
  else .isFalse (fun e => h (congrArg entries e))

/-! ## Look-up -/

/-- The value of `key` in a list of entries: the first one. -/
def lookup (key : String) : List (String × α) → Option α
  | [] => none
  | (k, v) :: r => if k = key then some v else lookup key r

/-- The value of `key`, if it has one. -/
def find? (t : Table α) (key : String) : Option α := lookup key t.entries

/-- `key` has a value. -/
def contains (t : Table α) (key : String) : Bool := (t.find? key).isSome

/-- The keys in increasing order. -/
def keys (t : Table α) : List String := t.entries.map (·.1)

/-- The number of entries. -/
def size (t : Table α) : Nat := t.entries.length

/-- The table has no entries. -/
def isEmpty (t : Table α) : Bool := t.entries.isEmpty

/-! ## Changing one entry -/

/-- Put `key ↦ value` at its place in a sorted list of entries. -/
def insertEntry (key : String) (value : α) : List (String × α) → List (String × α)
  | [] => [(key, value)]
  | (k, v) :: r =>
    if key < k then (key, value) :: (k, v) :: r
    else if k < key then (k, v) :: insertEntry key value r
    else (key, value) :: r

theorem mem_insertEntry {key : String} {value : α} {l : List (String × α)} {e : String × α}
    (h : e ∈ insertEntry key value l) : e = (key, value) ∨ e ∈ l := by
  induction l with
  | nil => simpa [insertEntry] using h
  | cons a r ih =>
    obtain ⟨k, v⟩ := a
    simp only [insertEntry] at h
    split at h
    · simpa using h
    · split at h
      · rcases List.mem_cons.1 h with h | h
        · simp [h]
        · rcases ih h with h | h <;> simp [h]
      · rcases List.mem_cons.1 h with h | h <;> simp [h]

theorem eq_of_not_lt_of_not_lt {a b : String} (h₁ : ¬ a < b) (h₂ : ¬ b < a) : a = b :=
  String.le_antisymm (String.not_lt.1 h₂) (String.not_lt.1 h₁)

theorem sorted_insertEntry (key : String) (value : α) {l : List (String × α)}
    (h : l.Pairwise (fun a b => a.1 < b.1)) :
    (insertEntry key value l).Pairwise (fun a b => a.1 < b.1) := by
  induction l with
  | nil => simp [insertEntry]
  | cons a r ih =>
    obtain ⟨k, v⟩ := a
    obtain ⟨hk, hr⟩ := List.pairwise_cons.1 h
    simp only [insertEntry]
    split
    · next hlt =>
      refine List.pairwise_cons.2 ⟨fun b hb => ?_, h⟩
      rcases List.mem_cons.1 hb with rfl | hb
      · exact hlt
      · exact String.lt_trans hlt (hk b hb)
    · next hnlt =>
      split
      · next hlt =>
        refine List.pairwise_cons.2 ⟨fun b hb => ?_, ih hr⟩
        rcases mem_insertEntry hb with rfl | hb
        · exact hlt
        · exact hk b hb
      · next hnlt' =>
        obtain rfl := eq_of_not_lt_of_not_lt hnlt hnlt'
        exact List.pairwise_cons.2 ⟨hk, hr⟩

/-- The table with `key ↦ value`, replacing any value that `key` had. -/
def insert (t : Table α) (key : String) (value : α) : Table α :=
  ⟨insertEntry key value t.entries, sorted_insertEntry key value t.sorted⟩

/-- The table without `key`. -/
def erase (t : Table α) (key : String) : Table α :=
  ⟨t.entries.filter (fun e => e.1 != key), t.sorted.filter _⟩

/-- The same keys with every value changed by `f`. -/
def map (f : String → α → β) (t : Table α) : Table β :=
  ⟨t.entries.map (fun e => (e.1, f e.1 e.2)), by
    simpa [List.pairwise_map] using t.sorted⟩

/-- The table of a list of entries; of two entries with one key the later one counts. -/
def ofList (l : List (String × α)) : Table α := l.foldl (fun t e => t.insert e.1 e.2) empty

/-! ## How look-ups see a change -/

theorem lookup_insertEntry (key : String) (value : α) (l : List (String × α)) (k : String) :
    lookup k (insertEntry key value l) = if k = key then some value else lookup k l := by
  induction l with
  | nil => simp [insertEntry, lookup, eq_comm]
  | cons a r ih =>
    obtain ⟨k', v'⟩ := a
    simp only [insertEntry]
    split
    · by_cases h : key = k
      · simp [lookup, h]
      · simp [lookup, h, Ne.symm h]
    · next hnlt =>
      split
      · next hlt =>
        have hne : k' ≠ key := by rintro rfl; exact String.lt_irrefl _ hlt
        simp only [lookup, ih]
        by_cases h : k' = k
        · subst h; simp [hne]
        · simp [h]
      · next hnlt' =>
        obtain rfl := eq_of_not_lt_of_not_lt hnlt hnlt'
        by_cases h : key = k
        · simp [lookup, h]
        · simp [lookup, h, Ne.symm h]

@[simp] theorem find?_insert (t : Table α) (key : String) (value : α) (k : String) :
    (t.insert key value).find? k = if k = key then some value else t.find? k :=
  lookup_insertEntry key value t.entries k

theorem lookup_filter (key : String) (l : List (String × α)) (k : String) :
    lookup k (l.filter (fun e => e.1 != key)) = if k = key then none else lookup k l := by
  induction l with
  | nil => simp [lookup]
  | cons a r ih =>
    obtain ⟨k', v'⟩ := a
    by_cases hk : k' = key
    · subst hk
      simp only [List.filter_cons, bne_self_eq_false, Bool.false_eq_true, if_false, ih, lookup]
      by_cases h : k = k'
      · simp [h]
      · simp [h, Ne.symm h]
    · simp only [List.filter_cons, bne_iff_ne, ne_eq, hk, not_false_eq_true, if_true, lookup, ih]
      by_cases h : k' = k
      · subst h; simp [hk]
      · simp [h]

@[simp] theorem find?_erase (t : Table α) (key : String) (k : String) :
    (t.erase key).find? k = if k = key then none else t.find? k :=
  lookup_filter key t.entries k

@[simp] theorem find?_empty (k : String) : (empty : Table α).find? k = none := rfl

theorem lookup_eq_none_of_lt {k : String} {l : List (String × α)}
    (h : ∀ e ∈ l, k < e.1) : lookup k l = none := by
  induction l with
  | nil => rfl
  | cons a r ih =>
    have hne : a.1 ≠ k := by
      intro e
      have := h a (by simp)
      rw [e] at this
      exact String.lt_irrefl _ this
    simp only [lookup, hne, if_false]
    exact ih fun e he => h e (by simp [he])

/-- A key that ascending entries hold does not stand before the first of their keys. -/
theorem not_lt_of_lookup_eq {a b : String × α} {r s : List (String × α)}
    (hb : ∀ e ∈ s, b.1 < e.1) (h : lookup a.1 (a :: r) = lookup a.1 (b :: s)) : ¬ a.1 < b.1 := by
  intro hlt
  have hnone : lookup a.1 (b :: s) = none := lookup_eq_none_of_lt fun e he => by
    rcases List.mem_cons.1 he with rfl | he
    · exact hlt
    · exact String.lt_trans hlt (hb e he)
  rw [hnone] at h
  simp [lookup] at h

theorem entries_ext {l m : List (String × α)} (hl : l.Pairwise (fun a b => a.1 < b.1))
    (hm : m.Pairwise (fun a b => a.1 < b.1)) (h : ∀ k, lookup k l = lookup k m) : l = m := by
  induction l generalizing m with
  | nil =>
    cases m with
    | nil => rfl
    | cons b s => have := h b.1; simp [lookup] at this
  | cons a r ih =>
    obtain ⟨ha, hr⟩ := List.pairwise_cons.1 hl
    cases m with
    | nil => have := h a.1; simp [lookup] at this
    | cons b s =>
      obtain ⟨hb, hs⟩ := List.pairwise_cons.1 hm
      have hab : ¬ a.1 < b.1 := not_lt_of_lookup_eq hb (h a.1)
      have hba : ¬ b.1 < a.1 := not_lt_of_lookup_eq ha (h b.1).symm
      have hk : a.1 = b.1 := eq_of_not_lt_of_not_lt hab hba
      have hv : a.2 = b.2 := by
        have := h a.1
        simpa [lookup, hk] using this
      have hrs : r = s := ih hr hs fun k => by
        by_cases hka : k = a.1
        · subst hka
          rw [lookup_eq_none_of_lt ha, lookup_eq_none_of_lt (hk ▸ hb)]
        · have := h k
          have h₁ : a.1 ≠ k := fun e => hka e.symm
          have h₂ : b.1 ≠ k := fun e => hka (hk.trans e).symm
          simpa [lookup, h₁, h₂] using this
      obtain ⟨ak, av⟩ := a
      obtain ⟨bk, bv⟩ := b
      simp_all

/-- A table is determined by its look-ups. -/
theorem ext_find? {t u : Table α} (h : ∀ k, t.find? k = u.find? k) : t = u := by
  obtain ⟨l, hl⟩ := t
  obtain ⟨m, hm⟩ := u
  obtain rfl := entries_ext hl hm h
  rfl

end Table

end RestCase
