/-
# RestCase.Proofs.Table.Listing — tables and the lists that they are made from

A table that is made from a list of entries has the keys of the list, and a key that comes once has
the value that stands beside it, wherever it stands (`find?_ofList`).  A table is made from its own
entries (`ofList_entries`).  Where the entry of a key stands, and what becomes of the list when the
key gets another value or none, is said by `exists_entries_around` and `entries_replace_of_around`.
-/
import Mathlib.Data.List.Induction
import Mathlib.Data.List.Nodup
import RestCase.Table

namespace RestCase.Table

variable {α : Type}

/-! ## Keys that come once -/

/-- **A key that comes once has the value that stands beside it**, by `lookup`. -/
theorem lookup_eq_some_iff {l : List (String × α)} (h : (l.map Prod.fst).Nodup) {k : String}
    {v : α} : lookup k l = some v ↔ (k, v) ∈ l := by
  induction l with
  | nil => simp [lookup]
  | cons e r ih =>
    obtain ⟨k', v'⟩ := e
    obtain ⟨hnew, hr⟩ := List.nodup_cons.1 h
    by_cases hk : k' = k
    · subst hk
      -- the key does not come again, so only the first entry has it
      have habsent : (k', v) ∉ r := fun hmem => hnew (List.mem_map.2 ⟨_, hmem, rfl⟩)
      simp [lookup, habsent, eq_comm]
    · have hother : (k, v) ≠ (k', v') := fun he => hk (congrArg Prod.fst he).symm
      simp [lookup, hk, ih hr, hother]

theorem lookup_eq_none_iff {l : List (String × α)} {k : String} :
    lookup k l = none ↔ k ∉ l.map Prod.fst := by
  induction l with
  | nil => simp [lookup]
  | cons e r ih =>
    obtain ⟨k', v'⟩ := e
    by_cases hk : k' = k
    · simp [lookup, hk]
    · simp [lookup, hk, ih, Ne.symm hk]

theorem mem_of_lookup {l : List (String × α)} {k : String} {v : α} (h : lookup k l = some v) :
    (k, v) ∈ l := by
  induction l with
  | nil => cases h
  | cons e r ih =>
    rw [lookup] at h
    split at h
    · next hk =>
      obtain rfl := Option.some.inj h
      exact hk ▸ List.mem_cons_self
    · exact List.mem_cons_of_mem e (ih h)

theorem lookup_append (k : String) (l m : List (String × α)) :
    lookup k (l ++ m) = (lookup k l).or (lookup k m) := by
  induction l with
  | nil => rfl
  | cons e r ih =>
    rw [List.cons_append, lookup, lookup, ih]
    split <;> rfl

/-- A change of every value keeps the places of the keys. -/
theorem lookup_map {β : Type} (f : String → α → β) (l : List (String × α)) (k : String) :
    lookup k (l.map fun e => (e.1, f e.1 e.2)) = (lookup k l).map (f k) := by
  induction l with
  | nil => rfl
  | cons e r ih =>
    rw [List.map_cons, lookup, lookup, ih]
    split
    · next hk => exact hk ▸ rfl
    · rfl

/-- The keys of a table come once each. -/
theorem nodup_keys (t : Table α) : (t.entries.map Prod.fst).Nodup := by
  have hsorted : (t.entries.map Prod.fst).Pairwise (· < ·) := List.pairwise_map.2 t.sorted
  refine hsorted.imp ?_
  rintro a b hlt rfl
  exact String.lt_irrefl _ hlt

/-- The keys of a table are those that have a value. -/
theorem mem_keys_iff {t : Table α} {k : String} : k ∈ t.keys ↔ ∃ v, t.find? k = some v := by
  rw [← Option.ne_none_iff_exists', find?, ne_eq, lookup_eq_none_iff, not_not]
  exact Iff.rfl

/-- A change of every value keeps the keys. -/
theorem find?_map {β : Type} (f : String → α → β) (t : Table α) (k : String) :
    (t.map f).find? k = (t.find? k).map (f k) :=
  lookup_map f t.entries k

/-! ## Tables made from lists -/

/-- What a list of entries makes of a table; the later one of two entries with one key counts. -/
theorem find?_foldl_insert (l : List (String × α)) (t : Table α) (k : String) :
    (l.foldl (fun t e => t.insert e.1 e.2) t).find? k =
      (lookup k l.reverse).or (t.find? k) := by
  induction l using List.reverseRecOn with
  | nil => rfl
  | append_singleton l e ih =>
    rw [List.foldl_append, List.reverse_append]
    simp only [List.foldl_cons, List.foldl_nil, find?_insert, List.reverse_singleton,
      List.singleton_append, lookup, ih]
    by_cases hk : k = e.1
    · simp [hk]
    · simp [hk, Ne.symm hk]

/-- **A table made from a list with distinct keys** (`ofList`) finds what the list has. -/
theorem find?_ofList {l : List (String × α)} (h : (l.map Prod.fst).Nodup) (k : String) :
    (ofList l).find? k = lookup k l := by
  have hreverse : (l.reverse.map Prod.fst).Nodup := by
    rw [List.map_reverse]
    exact List.nodup_reverse.2 h
  have hsame : lookup k l.reverse = lookup k l := by
    apply Option.ext
    intro v
    rw [lookup_eq_some_iff hreverse, lookup_eq_some_iff h, List.mem_reverse]
  rw [ofList, find?_foldl_insert, find?_empty, Option.or_none, hsame]

/-- **A table is made from its own entries**: `ofList` undoes `entries`. -/
theorem ofList_entries (t : Table α) : ofList t.entries = t := by
  apply ext_find?
  intro k
  rw [find?_ofList t.nodup_keys]
  rfl

/-- The entries of a table made from a list are put in one after the other. -/
theorem entries_ofList (l : List (String × α)) :
    (ofList l).entries = l.foldl (fun s e => insertEntry e.1 e.2 s) [] := by
  have hfold : ∀ t : Table α, (l.foldl (fun t e => t.insert e.1 e.2) t).entries =
      l.foldl (fun s e => insertEntry e.1 e.2 s) t.entries := by
    induction l with
    | nil => intro t; rfl
    | cons e r ih => intro t; exact ih (t.insert e.1 e.2)
  exact hfold empty

/-! ## Entries around a key -/

/-- **The entries around a key**: those with smaller keys, the entry of the key if it has one, and
those with larger keys. -/
theorem exists_entries_around (t : Table α) (k : String) :
    ∃ before after, t.entries = before ++ ((t.find? k).map (k, ·)).toList ++ after ∧
      (∀ e ∈ before, e.1 < k) ∧ ∀ e ∈ after, k < e.1 := by
  obtain ⟨l, hl⟩ := t
  show ∃ before after, l = before ++ ((lookup k l).map (k, ·)).toList ++ after ∧ _
  induction l with
  | nil => exact ⟨[], [], rfl, nofun, nofun⟩
  | cons a r ih =>
    obtain ⟨k', v⟩ := a
    obtain ⟨hfirst, hr⟩ := List.pairwise_cons.1 hl
    by_cases hk : k' = k
    · subst hk
      exact ⟨[], r, by simp [lookup], nofun, hfirst⟩
    · by_cases hlt : k' < k
      · obtain ⟨before, after, hcut, hbefore, hafter⟩ := ih hr
        refine ⟨(k', v) :: before, after, ?_, List.forall_mem_cons.2 ⟨hlt, hbefore⟩, hafter⟩
        rw [lookup, if_neg hk]
        exact congrArg ((k', v) :: ·) hcut
      · -- the list begins behind the key, so the key has no entry
        have hgt : k < k' := by
          apply Decidable.byContradiction
          intro hnot
          exact hk (eq_of_not_lt_of_not_lt hlt hnot)
        have hall : ∀ e ∈ (k', v) :: r, k < e.1 :=
          List.forall_mem_cons.2 ⟨hgt, fun e he => String.lt_trans hgt (hfirst e he)⟩
        refine ⟨[], (k', v) :: r, ?_, nofun, hall⟩
        rw [lookup_eq_none_of_lt hall]
        rfl

/-- The table with another value for a key, or without the key. -/
def replace (t : Table α) (k : String) : Option α → Table α
  | some v => t.insert k v
  | none => t.erase k

section Around

variable {t : Table α} {k : String} {before after : List (String × α)} {found : Option α}

/-- Inserting a key puts its entry between the smaller keys and the larger ones. -/
theorem entries_insert_of_around
    (h : t.entries = before ++ (found.map (k, ·)).toList ++ after)
    (hbefore : ∀ e ∈ before, e.1 < k) (hafter : ∀ e ∈ after, k < e.1) (v : α) :
    (t.insert k v).entries = before ++ (k, v) :: after := by
  show insertEntry k v t.entries = _
  rw [h, List.append_assoc]
  clear h
  induction before with
  | nil =>
    cases found with
    | some w => simp [insertEntry]
    | none =>
      cases after with
      | nil => rfl
      | cons e after => simp [insertEntry, hafter e List.mem_cons_self]
  | cons e before ih =>
    obtain ⟨hlt, hrest⟩ := List.forall_mem_cons.1 hbefore
    have hnot : ¬ k < e.1 := fun hgt => String.lt_irrefl _ (String.lt_trans hlt hgt)
    rw [List.cons_append, List.cons_append, insertEntry, if_neg hnot, if_pos hlt, ih hrest]

/-- Erasing a key takes out its entry and no other. -/
theorem entries_erase_of_around
    (h : t.entries = before ++ (found.map (k, ·)).toList ++ after)
    (hbefore : ∀ e ∈ before, e.1 < k) (hafter : ∀ e ∈ after, k < e.1) :
    (t.erase k).entries = before ++ after := by
  have hkept : ∀ e : String × α, e.1 < k ∨ k < e.1 → (e.1 != k) = true := by
    intro e hside
    apply bne_iff_ne.2
    rintro rfl
    exact hside.elim (String.lt_irrefl _) (String.lt_irrefl _)
  have hown : (found.map (k, ·)).toList.filter (fun e => e.1 != k) = [] := by
    cases found with
    | none => rfl
    | some w => simp
  show t.entries.filter (fun e => e.1 != k) = _
  rw [h, List.filter_append, List.filter_append, hown, List.append_nil,
    List.filter_eq_self.2 fun e he => hkept e (.inl (hbefore e he)),
    List.filter_eq_self.2 fun e he => hkept e (.inr (hafter e he))]

/-- **Another value for a key**, or none (`replace`), changes the entry of the key and no other. -/
theorem entries_replace_of_around
    (h : t.entries = before ++ (found.map (k, ·)).toList ++ after)
    (hbefore : ∀ e ∈ before, e.1 < k) (hafter : ∀ e ∈ after, k < e.1) (new : Option α) :
    (t.replace k new).entries = before ++ (new.map (k, ·)).toList ++ after := by
  cases new with
  | some v => simp [replace, entries_insert_of_around h hbefore hafter]
  | none => simp [replace, entries_erase_of_around h hbefore hafter]

end Around

end RestCase.Table
