/-
# RestCase.Json.Basic — JSON documents

A `Json` keeps the members of its objects in the order in which they are written, and an integer
apart from a binary64 number.  A *value*, as the rest of the library handles it, is a document in
normal form (`Json.Normal`): the members of every object sorted by key, and of members with one key
only the last.  `Json.normalize` gives it (`normal_normalize`).

`Json.same` compares two documents as they are written; an integer and a binary64 number are never
the same for it.
-/
import RestCase.Binary64.Basic
import RestCase.Table

namespace RestCase

/-- A JSON document. -/
inductive Json where
  | null
  | bool (value : Bool)
  | int (value : Int)
  | float (value : Finite64)
  | string (value : String)
  | array (items : List Json)
  | object (members : List (String × Json))

namespace Json

instance : Inhabited Json := ⟨null⟩

/-- The document is `null`. -/
def isNull : Json → Bool
  | null => true
  | _ => false

theorem isNull_iff (v : Json) : v.isNull = true ↔ v = null := by
  cases v <;> simp [isNull]

/-! ## Sameness

Two numbers are the same when both are integers or both are binary64, with equal value: `1` and
`1.0` differ, `0.0` and `-0.0` do not. -/

mutual
/-- The two documents are the same, number kinds kept apart. -/
def same : Json → Json → Bool
  | null, null => true
  | bool a, bool b => a == b
  | int a, int b => a == b
  | float a, float b => a.compare b == .eq
  | string a, string b => a == b
  | array a, array b => sameItems a b
  | object a, object b => sameMembers a b
  | _, _ => false

/-- The two lists are the same, item by item. -/
def sameItems : List Json → List Json → Bool
  | [], [] => true
  | a :: r, b :: s => same a b && sameItems r s
  | _, _ => false

/-- The two lists of members are the same, one by one. -/
def sameMembers : List (String × Json) → List (String × Json) → Bool
  | [], [] => true
  | (k, a) :: r, (l, b) :: s => k == l && same a b && sameMembers r s
  | _, _ => false
end

mutual
theorem same_refl : ∀ v : Json, same v v = true
  | null => rfl
  | bool _ => by simp [same]
  | int _ => by simp [same]
  | float _ => by simp [same, Finite64.compare]
  | string _ => by simp [same]
  | array items => by simpa [same] using sameItems_refl items
  | object members => by simpa [same] using sameMembers_refl members

theorem sameItems_refl : ∀ l : List Json, sameItems l l = true
  | [] => rfl
  | a :: r => by simp [sameItems, same_refl a, sameItems_refl r]

theorem sameMembers_refl : ∀ l : List (String × Json), sameMembers l l = true
  | [] => rfl
  | (k, a) :: r => by simp [sameMembers, same_refl a, sameMembers_refl r]
end

/-! ## Normal form -/

mutual
/-- The document with the members of every object sorted by key, the last of one key kept: what
`Normal` describes. -/
def normalize : Json → Json
  | array items => array (normalizeItems items)
  | object members => object (normalizeMembers [] members)
  | v => v

/-- Every item normalized. -/
def normalizeItems : List Json → List Json
  | [] => []
  | v :: r => normalize v :: normalizeItems r

/-- The members put into a sorted list, one after the other. -/
def normalizeMembers (sorted : List (String × Json)) : List (String × Json) → List (String × Json)
  | [] => sorted
  | (k, v) :: r => normalizeMembers (Table.insertEntry k (normalize v) sorted) r
end

mutual
/-- Every object of the document has its members in strictly increasing order of the keys. -/
inductive Normal : Json → Prop where
  | null : Normal null
  | bool (b : Bool) : Normal (bool b)
  | int (n : Int) : Normal (int n)
  | float (x : Finite64) : Normal (float x)
  | string (s : String) : Normal (string s)
  | array {items : List Json} : NormalItems items → Normal (array items)
  | object {members : List (String × Json)} :
      members.Pairwise (fun a b => a.1 < b.1) → NormalMembers members → Normal (object members)

/-- Every item is normal. -/
inductive NormalItems : List Json → Prop where
  | nil : NormalItems []
  | cons {v : Json} {r : List Json} : Normal v → NormalItems r → NormalItems (v :: r)

/-- The value of every member is normal. -/
inductive NormalMembers : List (String × Json) → Prop where
  | nil : NormalMembers []
  | cons {k : String} {v : Json} {r : List (String × Json)} :
      Normal v → NormalMembers r → NormalMembers ((k, v) :: r)
end

theorem normalMembers_insertEntry {k : String} {v : Json} (hv : Normal v)
    {l : List (String × Json)} (hl : NormalMembers l) :
    NormalMembers (Table.insertEntry k v l) := by
  induction l with
  | nil => exact .cons hv .nil
  | cons e r ih =>
    obtain ⟨k', v'⟩ := e
    cases hl with
    | cons hv' hr =>
      simp only [Table.insertEntry]
      split
      · exact .cons hv (.cons hv' hr)
      · split
        · exact .cons hv' (ih hr)
        · exact .cons hv hr

mutual
theorem normal_normalize : ∀ v : Json, Normal (normalize v)
  | null => .null
  | bool b => .bool b
  | int n => .int n
  | float x => .float x
  | string s => .string s
  | array items => by
    simpa [normalize] using Normal.array (normalItems_normalizeItems items)
  | object members => by
    have h := normalMembers_normalizeMembers members [] .nil .nil
    simpa [normalize] using Normal.object h.1 h.2

theorem normalItems_normalizeItems : ∀ l : List Json, NormalItems (normalizeItems l)
  | [] => .nil
  | v :: r => .cons (normal_normalize v) (normalItems_normalizeItems r)

theorem normalMembers_normalizeMembers : ∀ (l sorted : List (String × Json)),
    sorted.Pairwise (fun a b => a.1 < b.1) → NormalMembers sorted →
    (normalizeMembers sorted l).Pairwise (fun a b => a.1 < b.1) ∧
      NormalMembers (normalizeMembers sorted l)
  | [], _, hs, hn => ⟨hs, hn⟩
  | (k, v) :: r, sorted, hs, hn => by
    simpa [normalizeMembers] using
      normalMembers_normalizeMembers r (Table.insertEntry k (normalize v) sorted)
        (Table.sorted_insertEntry k _ hs) (normalMembers_insertEntry (normal_normalize v) hn)
end

/-! ## Parts of a document -/

/-- The value of a member of an object. -/
def member? (key : String) : Json → Option Json
  | object members => Table.lookup key members
  | _ => none

/-- An item of an array. -/
def item? (index : Nat) : Json → Option Json
  | array items => items[index]?
  | _ => none

/-- The object of a table of documents. -/
def ofTable (t : Table Json) : Json := object t.entries

/-- A string, or `null` where there is none. -/
def ofOptionalString : Option String → Json
  | some s => string s
  | none => null

/-- A number, or `null` where there is none. -/
def ofOptionalNat : Option Nat → Json
  | some n => int n
  | none => null

end Json

end RestCase
