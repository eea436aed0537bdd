/-
# RestCase.Proofs.Json.Normal — documents in normal form

Normalizing a document that is in normal form changes nothing (`normalize_of_normal`), so that a
value which was read, and is normal for that reason, is read again as what it was.  An object of
normal values becomes the table that its members make (`normalize_object`), and
`normalize_object_eq_iff` says when two objects have one normal form.
-/
import RestCase.Json.Basic
import RestCase.Proofs.Table.Listing

namespace RestCase.Json

theorem normalizeItems_eq_map (l : List Json) : normalizeItems l = l.map normalize := by
  induction l with
  | nil => rfl
  | cons v l ih => rw [normalizeItems, ih, List.map_cons]

/-- The values of members are normal when each of them is. -/
theorem normalMembers_iff {l : List (String × Json)} :
    NormalMembers l ↔ ∀ e ∈ l, Normal e.2 := by
  induction l with
  | nil => simp [NormalMembers.nil]
  | cons e r ih =>
    rw [List.forall_mem_cons, ← ih]
    constructor
    · intro h
      cases h with
      | cons hv hr => exact ⟨hv, hr⟩
    · rintro ⟨hv, hr⟩
      exact .cons hv hr

/-- Members in strictly increasing order of their keys are put in where they are. -/
theorem foldl_insertEntry_of_sorted {l : List (String × Json)}
    (h : l.Pairwise (fun a b => a.1 < b.1)) :
    l.foldl (fun s e => Table.insertEntry e.1 e.2 s) [] = l := by
  rw [← Table.entries_ofList]
  exact congrArg Table.entries (Table.ofList_entries ⟨l, h⟩)

mutual
/-- **Normalizing a normal document changes nothing**: `normalize` is the identity on `Normal`. -/
theorem normalize_of_normal : ∀ v : Json, Normal v → normalize v = v
  | null, _ => rfl
  | bool _, _ => rfl
  | int _, _ => rfl
  | float _, _ => rfl
  | string _, _ => rfl
  | array items, h => by
    cases h with
    | array hitems => rw [normalize, normalizeItems_of_normal items hitems]
  | object members, h => by
    cases h with
    | object hsorted hmembers =>
      rw [normalize, normalizeMembers_of_normal members hmembers,
        foldl_insertEntry_of_sorted hsorted]

theorem normalizeItems_of_normal : ∀ l : List Json, NormalItems l → normalizeItems l = l
  | [], _ => rfl
  | v :: r, h => by
    cases h with
    | cons hv hr => rw [normalizeItems, normalize_of_normal v hv, normalizeItems_of_normal r hr]

/-- Normal values are put in as they are. -/
theorem normalizeMembers_of_normal : ∀ l : List (String × Json), NormalMembers l →
    ∀ sorted : List (String × Json),
      normalizeMembers sorted l = l.foldl (fun s e => Table.insertEntry e.1 e.2 s) sorted
  | [], _, _ => rfl
  | (k, v) :: r, h, sorted => by
    cases h with
    | cons hv hr =>
      rw [normalizeMembers, normalize_of_normal v hv]
      exact normalizeMembers_of_normal r hr (Table.insertEntry k v sorted)
end

/-- **An object of normal values becomes the table that its members make.** -/
theorem normalize_object {l : List (String × Json)} (h : NormalMembers l) :
    normalize (object l) = ofTable (Table.ofList l) := by
  rw [normalize, normalizeMembers_of_normal l h, ofTable, Table.entries_ofList]

/-! ## Normalizing twice -/

theorem normalize_normalize (v : Json) : v.normalize.normalize = v.normalize :=
  normalize_of_normal _ (normal_normalize v)

/-- Members whose values were normalized before are put in as they would have been. -/
theorem normalizeMembers_map_normalize (l sorted : List (String × Json)) :
    normalizeMembers sorted (l.map fun e => (e.1, e.2.normalize)) =
      normalizeMembers sorted l := by
  induction l generalizing sorted with
  | nil => rfl
  | cons e l ih =>
    rw [List.map_cons, normalizeMembers, normalizeMembers, normalize_normalize, ih]

/-- Every entry of a normalized object is a member of the object, normalized. -/
theorem mem_normalizeMembers {l sorted : List (String × Json)} {e : String × Json}
    (h : e ∈ normalizeMembers sorted l) :
    e ∈ sorted ∨ ∃ m ∈ l, e = (m.1, m.2.normalize) := by
  induction l generalizing sorted with
  | nil => exact .inl h
  | cons m l ih =>
    rcases ih h with hsorted | ⟨m', hm', he⟩
    · rcases Table.mem_insertEntry hsorted with he | hold
      · exact .inr ⟨m, List.mem_cons_self, he⟩
      · exact .inl hold
    · exact .inr ⟨m', List.mem_cons_of_mem _ hm', he⟩

/-! ## Objects and their look-ups -/

/-- The value of a key: of members with one key the last counts. -/
def lastValue? (key : String) (members : List (String × Json)) : Option Json :=
  Table.lookup key members.reverse

theorem lastValue?_eq_none_iff {k : String} {l : List (String × Json)} :
    lastValue? k l = none ↔ k ∉ l.map Prod.fst := by
  unfold lastValue?
  rw [Table.lookup_eq_none_iff, List.map_reverse, List.mem_reverse]

theorem mem_of_lastValue? {k : String} {v : Json} {l : List (String × Json)}
    (h : lastValue? k l = some v) : (k, v) ∈ l :=
  List.mem_reverse.1 (Table.mem_of_lookup h)

/-- **An object becomes the table that its normalized members make.** -/
theorem normalize_object_eq_ofTable (l : List (String × Json)) :
    normalize (object l) = ofTable (Table.ofList (l.map fun e => (e.1, e.2.normalize))) := by
  have hnormal : NormalMembers (l.map fun e => (e.1, e.2.normalize)) := by
    rw [normalMembers_iff]
    intro e he
    obtain ⟨m, -, rfl⟩ := List.mem_map.1 he
    exact normal_normalize m.2
  rw [← normalize_object hnormal, normalize, normalize, normalizeMembers_map_normalize]

/-- **Two objects have one normal form** iff every key has one value in both (`lastValue?`),
normalized. -/
theorem normalize_object_eq_iff {l m : List (String × Json)} :
    normalize (object l) = normalize (object m) ↔
      ∀ k, (lastValue? k l).map normalize = (lastValue? k m).map normalize := by
  have hfind : ∀ (l : List (String × Json)) (k : String),
      (Table.ofList (l.map fun e => (e.1, e.2.normalize))).find? k =
        (lastValue? k l).map normalize := by
    intro l k
    rw [Table.ofList, Table.find?_foldl_insert, Table.find?_empty, Option.or_none,
      ← List.map_reverse, Table.lookup_map fun _ => normalize]
    rfl
  rw [normalize_object_eq_ofTable, normalize_object_eq_ofTable]
  simp only [← hfind]
  constructor
  · intro h k
    have hentries := congrArg (fun v => v.member? k) h
    exact hentries
  · intro h
    rw [Table.ext_find? h]

end RestCase.Json
