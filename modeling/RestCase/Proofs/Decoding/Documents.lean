/-
# RestCase.Proofs.Decoding.Documents — decoding the trees of JSON documents

The tree of a JSON document has no tags and no numbers but finite ones, and so has every part of it
(`IsDocument`).  What is decoded from such a tree is therefore a value that a JSON document can
hold; and the tree of a JSON document is decoded in the same way in both dialects.

`toValue_ofDocument` reads the tree of a document as its normal form, `record_ofDocument` takes the
members of an object for the fields of a record, and `record_preserves` carries what every field
keeps to the record.  In the tree of a normal document no key comes twice (`distinct_ofDocument`).
-/
import RestCase.Proofs.Decoding.Records
import RestCase.Proofs.Json.Normal

namespace RestCase.Decoding

variable {α δ : Type} {d : Dialect}

/-! ## Parts of the tree of a document -/

theorem ofItems_eq_map (l : List Json) : ofItems l = l.map ofDocument := by
  induction l with
  | nil => rfl
  | cons v l ih => rw [ofItems, ih, List.map_cons]

theorem ofMembers_eq_map (l : List (String × Json)) :
    ofMembers l = l.map fun e => (.string e.1, ofDocument e.2) := by
  induction l with
  | nil => rfl
  | cons e l ih => rw [ofMembers, ih, List.map_cons]

/-- The node is the tree of a JSON document, from `ofDocument`. -/
def IsDocument (v : Node) : Prop := ∃ j, ofDocument j = v

theorem isDocument_ofDocument (j : Json) : IsDocument (ofDocument j) := ⟨j, rfl⟩

/-- The tree of a JSON document has no tag. -/
@[simp] theorem untaggedIn_ofDocument (j : Json) : untaggedIn d (ofDocument j) = ofDocument j := by
  cases d with
  | json => rfl
  | yaml => cases j <;> rfl

theorem IsDocument.untaggedIn_eq {v : Node} (h : IsDocument v) : untaggedIn d v = v := by
  obtain ⟨j, rfl⟩ := h
  exact untaggedIn_ofDocument j

theorem IsDocument.item {items : List Node} (h : IsDocument (.sequence items)) :
    ∀ w ∈ items, IsDocument w := by
  obtain ⟨j, hj⟩ := h
  cases j with
  | array l =>
    obtain rfl : ofItems l = items := Node.sequence.inj hj
    intro w hw
    rw [ofItems_eq_map] at hw
    obtain ⟨x, -, rfl⟩ := List.mem_map.1 hw
    exact isDocument_ofDocument x
  | _ => cases hj

theorem IsDocument.entry {entries : List (Node × Node)} (h : IsDocument (.mapping entries)) :
    ∀ e ∈ entries, IsDocument e.2 := by
  obtain ⟨j, hj⟩ := h
  cases j with
  | object l =>
    obtain rfl : ofMembers l = entries := Node.mapping.inj hj
    intro w hw
    rw [ofMembers_eq_map] at hw
    obtain ⟨x, -, rfl⟩ := List.mem_map.1 hw
    exact isDocument_ofDocument x.2
  | _ => cases hj

/-- The items of what is read as a sequence, none of null in YAML, are documents again. -/
theorem IsDocument.itemsOf {v : Node} (h : IsDocument v) {items : List Node}
    (hitems : Decoding.itemsOf d v = .ok items) : ∀ w ∈ items, IsDocument w := by
  unfold Decoding.itemsOf at hitems
  rw [h.untaggedIn_eq] at hitems
  split at hitems
  · obtain rfl := Except.ok.inj hitems
    exact h.item
  · obtain rfl := Except.ok.inj hitems
    simp
  · cases hitems

theorem IsDocument.entriesOf {v : Node} (h : IsDocument v) {expected : String}
    {entries : List (Node × Node)} (hentries : Decoding.entriesOf d expected v = .ok entries) :
    ∀ e ∈ entries, IsDocument e.2 := by
  unfold Decoding.entriesOf at hentries
  rw [h.untaggedIn_eq] at hentries
  split at hentries
  · obtain rfl := Except.ok.inj hentries
    exact h.entry
  · obtain rfl := Except.ok.inj hentries
    simp
  · cases hentries

/-! ## What is decoded from a document -/

/-- Whatever the decoder makes of the tree of a JSON document (`IsDocument`) has the property. -/
def Gives (decode : Node → Decoded α) (P : α → Prop) : Prop :=
  ∀ v a, IsDocument v → decode v = .ok a → P a

theorem Gives.optional {decode : Node → Decoded α} {P : α → Prop} (h : Gives decode P) :
    Gives (Decoding.optional decode) fun x => ∀ a ∈ x, P a := by
  rintro v x hv hx a rfl
  rcases optional_eq_ok_iff.1 hx with ⟨-, hnone⟩ | ⟨-, b, hb, hsome⟩
  · cases hnone
  · obtain rfl := Option.some.inj hsome
    exact h v b hv hb

/-- **What is decoded from every item** holds of every element, by `mapM_eq_ok_iff`. -/
theorem Gives.items {decode : Node → Decoded α} {P : α → Prop} (h : Gives decode P)
    {items : List Node} {l : List α} (hitems : ∀ w ∈ items, IsDocument w)
    (hl : List.Forall₂ (fun w a => decode w = .ok a) items l) : ∀ a ∈ l, P a := by
  induction hl with
  | nil => simp
  | cons hhead _ ih =>
    obtain ⟨hw, hrest⟩ := List.forall_mem_cons.1 hitems
    exact List.forall_mem_cons.2 ⟨h _ _ hw hhead, ih hrest⟩

theorem Gives.list {decode : Node → Decoded α} {P : α → Prop} (h : Gives decode P) :
    Gives (Decoding.list d decode) fun l => ∀ a ∈ l, P a := by
  intro v l hv hl
  obtain ⟨items, hitems, hdecoded⟩ := list_eq_ok_iff.1 hl
  exact h.items (hv.itemsOf hitems) hdecoded

/-- What was decoded into a place has the property. -/
theorem Gives.filled {decode : Node → Decoded α} {P : α → Prop} (h : Gives decode P) {v : Node}
    (hv : IsDocument v) {a : α} (ha : decode v = .ok a) : ∀ b ∈ some a, P b := by
  intro b hb
  obtain rfl := Option.some.inj hb
  exact h v a hv ha

/-- **What every field keeps** holds of a record that was read from a document. -/
theorem record_preserves {P : δ → Prop} {layout : Layout} {empty : δ}
    {add : δ → String → Node → Decoded δ} (hempty : P empty)
    (hadd : ∀ {r r' field v}, IsDocument v → P r → add r field v = .ok r' → P r') :
    Gives (record d layout empty add) P := by
  intro v r hv hr
  unfold record at hr
  rw [hv.untaggedIn_eq] at hr
  split at hr
  · exact readPositions_preserves (fun _ _ _ _ => hadd) hv.item hempty hr
  · obtain ⟨entries, hentries, hfold⟩ := bind_eq_ok_iff.1 hr
    refine foldlM_preserves (Q := fun e => IsDocument e.2) ?_ (hv.entriesOf hentries) hempty hfold
    intro r r' e he hPr hstep
    obtain ⟨field, -, hfield⟩ := bind_eq_ok_iff.1 hstep
    exact hadd he hPr hfield

/-! ## Values -/

mutual
/-- **The tree of a document is read as its normal form**: `toValue` after `ofDocument` is
`Json.normalize`. -/
theorem toValue_ofDocument : ∀ v : Json, toValue (ofDocument v) = .ok v.normalize
  | .null => rfl
  | .bool _ => rfl
  | .int _ => rfl
  | .float _ => rfl
  | .string _ => rfl
  | .array items => by
    rw [ofDocument, toValue, toItems_ofItems items, Json.normalize]
    rfl
  | .object members => by
    rw [ofDocument, toValue, toMembers_ofMembers true members, Except.map, Json.normalize,
      Json.normalizeMembers_map_normalize, ← Json.normalize]

theorem toItems_ofItems : ∀ l : List Json, toItems (ofItems l) = .ok (Json.normalizeItems l)
  | [] => rfl
  | v :: l => by
    rw [ofItems, toItems, toValue_ofDocument v, toItems_ofItems l, Json.normalizeItems]
    rfl

theorem toMembers_ofMembers (first : Bool) : ∀ l : List (String × Json),
    toMembers first (ofMembers l) = .ok (l.map fun e => (e.1, e.2.normalize))
  | [] => rfl
  | (k, v) :: l => by
    rw [ofMembers, toMembers, toValue_ofDocument v, toMembers_ofMembers false l]
    rfl
end

/-! ## Reading what was written -/

@[simp] theorem text_ofDocument (s : String) : text d (ofDocument (.string s)) = .ok s := by
  rw [text, untaggedIn_ofDocument]
  rfl

/-- A value that is not null is read when there is one. -/
theorem optional_ofDocument {decode : Node → Decoded α} {v : Json} {a : α} (hv : v ≠ .null)
    (h : decode (ofDocument v) = .ok a) : optional decode (ofDocument v) = .ok (some a) := by
  refine optional_eq_ok_iff.2 (Or.inr ⟨?_, a, h, rfl⟩)
  intro hnull
  cases v with
  | null => exact hv rfl
  | _ => cases hnull

@[simp] theorem optional_text_ofDocument (s : Option String) :
    optional (text d) (ofDocument (.ofOptionalString s)) = .ok s := by
  cases s with
  | none => rfl
  | some s => exact optional_ofDocument (by simp [Json.ofOptionalString]) (text_ofDocument s)

theorem natural_ofDocument {word : Word} {n : Nat} (h : n ≤ word.greatest) :
    natural word d (ofDocument (.int n)) = .ok n := by
  have hfits : 0 ≤ (n : Int) ∧ (n : Int) ≤ (word.greatest : Int) := by omega
  rw [natural, untaggedIn_ofDocument]
  simp [ofDocument, hfits]

theorem optional_natural_ofDocument {word : Word} {n : Option Nat}
    (h : ∀ m, n = some m → m ≤ word.greatest) :
    optional (natural word d) (ofDocument (.ofOptionalNat n)) = .ok n := by
  cases n with
  | none => rfl
  | some n =>
    have hread : natural word d (ofDocument (.int n)) = .ok n := natural_ofDocument (h n rfl)
    exact optional_ofDocument (by simp [Json.ofOptionalNat]) hread

/-- Elements are read when each of them is. -/
theorem list_ofDocument {decode : Node → Decoded α} {encode : α → Json} {l : List α}
    (h : ∀ a ∈ l, decode (ofDocument (encode a)) = .ok a) :
    list d decode (ofDocument (.array (l.map encode))) = .ok l := by
  refine list_eq_ok_iff.2 ⟨ofItems (l.map encode), ?_, ?_⟩
  · unfold itemsOf
    rw [untaggedIn_ofDocument]
    rfl
  · rw [ofItems_eq_map, List.map_map, List.forall₂_map_left_iff, List.forall₂_same]
    exact h

theorem entriesOf_ofDocument (expected : String) (members : List (String × Json)) :
    entriesOf d expected (ofDocument (.object members)) = .ok (ofMembers members) := by
  unfold entriesOf
  rw [untaggedIn_ofDocument]
  rfl

/-- **A table is made again from its entries** when the value of each is read. -/
theorem table_map_ofDocument {decode : Node → Decoded α} {encode : α → Json} (t : Table α)
    (h : ∀ e ∈ t.entries, decode (ofDocument (encode e.2)) = .ok e.2) :
    table d decode (ofDocument (.object (t.entries.map fun e => (e.1, encode e.2)))) = .ok t := by
  rw [table, entriesOf_ofDocument]
  refine bind_eq_ok_iff.2 ⟨_, rfl, bind_eq_ok_iff.2 ⟨t.entries, ?_, ?_⟩⟩
  · rw [mapM_eq_ok_iff, ofMembers_eq_map, List.map_map, List.forall₂_map_left_iff,
      List.forall₂_same]
    intro e he
    refine bind_eq_ok_iff.2 ⟨e.1, text_ofDocument e.1, ?_⟩
    exact bind_eq_ok_iff.2 ⟨e.2, h e he, rfl⟩
  -- the entries are sorted already, so the table is made again as it was
  · rw [Table.ofList_entries]
    rfl

/-- A table of texts is made again from its entries. -/
theorem table_ofDocument (t : Table String) :
    table d (text d) (ofDocument (.object (t.entries.map fun e => (e.1, .string e.2)))) =
      .ok t :=
  table_map_ofDocument t fun e _ => text_ofDocument e.2

/-- **The members of an object** are the fields of a record: `record` is a fold over them. -/
theorem record_ofDocument {layout : Layout} {empty : δ} {add : δ → String → Node → Decoded δ}
    (members : List (String × Json)) :
    record d layout empty add (ofDocument (.object members)) =
      members.foldlM (fun r e => add r e.1 (ofDocument e.2)) empty := by
  have hentries : record d layout empty add (ofDocument (.object members)) =
      (ofMembers members).foldlM (fun r e => do add r (← fieldName d e.1) e.2) empty := by
    cases d <;> rfl
  rw [hentries, ofMembers_eq_map, List.foldlM_map]
  congr 1
  funext r e
  have hname : fieldName d (.string e.1) = .ok e.1 := by cases d <;> rfl
  rw [hname]
  rfl

/-! ## Keys of a document -/

theorem distinct_array {l : List Json} (h : ∀ v ∈ l, distinct (ofDocument v) = .ok ()) :
    distinct (ofDocument (.array l)) = .ok () := by
  rw [ofDocument, distinct, distinctItems_eq_ok_iff, ofItems_eq_map]
  intro w hw
  obtain ⟨v, hv, rfl⟩ := List.mem_map.1 hw
  exact h v hv

/-- No key comes twice in an object whose members have different names. -/
theorem distinct_object {l : List (String × Json)} (hnames : (l.map Prod.fst).Nodup)
    (h : ∀ e ∈ l, distinct (ofDocument e.2) = .ok ()) :
    distinct (ofDocument (.object l)) = .ok () := by
  rw [ofDocument, distinct, distinctEntries_eq_ok_iff, ofMembers_eq_map]
  refine ⟨?_, ?_, fun _ _ k hk => absurd hk List.not_mem_nil⟩
  · intro w hw
    obtain ⟨e, he, rfl⟩ := List.mem_map.1 hw
    exact ⟨rfl, h e he⟩
  · rw [List.pairwise_map]
    have hapart : l.Pairwise fun a b => a.1 ≠ b.1 := List.pairwise_map.1 hnames
    refine hapart.imp ?_
    intro a b hab
    simpa [Node.same] using Ne.symm hab

mutual
/-- **In the tree of a normal document** (`Json.Normal`) no key comes twice. -/
theorem distinct_ofDocument : ∀ v : Json, v.Normal → distinct (ofDocument v) = .ok ()
  | .null, _ => rfl
  | .bool _, _ => rfl
  | .int _, _ => rfl
  | .float _, _ => rfl
  | .string _, _ => rfl
  | .array items, h => by
    cases h with
    | array hitems => exact distinct_array (distinct_ofItems items hitems)
  | .object members, h => by
    cases h with
    | object hsorted hmembers =>
      exact distinct_object (Table.nodup_keys ⟨members, hsorted⟩)
        (distinct_ofMembers members hmembers)

theorem distinct_ofItems : ∀ l : List Json, Json.NormalItems l →
    ∀ v ∈ l, distinct (ofDocument v) = .ok ()
  | [], _ => by simp
  | v :: l, h => by
    cases h with
    | cons hv hl =>
      exact List.forall_mem_cons.2 ⟨distinct_ofDocument v hv, distinct_ofItems l hl⟩

theorem distinct_ofMembers : ∀ l : List (String × Json), Json.NormalMembers l →
    ∀ e ∈ l, distinct (ofDocument e.2) = .ok ()
  | [], _ => by simp
  | (k, v) :: l, h => by
    cases h with
    | cons hv hl =>
      exact List.forall_mem_cons.2 ⟨distinct_ofDocument v hv, distinct_ofMembers l hl⟩
end

end RestCase.Decoding
