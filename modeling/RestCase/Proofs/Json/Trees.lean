/-
# RestCase.Proofs.Json.Trees — arrays and objects agree iff they are the same tree

Arrays and objects are compared by their texts.  Two documents are the same tree (`SameTree`) when
they are the same scalar, or arrays of the same trees in turn, or objects with the same keys and the
same tree under each, wherever its member stands.  Sameness is equality of normal forms
(`sameTree_iff`), and the text of a document determines the document (`eq_of_render_eq`): the
compact text of two documents is read as either of them, and reading has one result.  So the
comparison of texts is a comparison of trees (`looselyEqual_structures`), and a part of a document
counts wherever it stands (`Frame.sameTree_fill_iff`).

Boundary: every number is an integer of 64 bits.
-/
import RestCase.Proofs.Json.Agreement
import RestCase.Proofs.Json.Normal
import RestCase.Proofs.Json.Spelling

namespace RestCase.Json

/-! ## The same tree -/

mutual
/-- The two documents are the same tree.  The order of members does not matter, and of members
with one key the last counts (`lastValue?`). -/
inductive SameTree : Json → Json → Prop
  | null : SameTree null null
  | bool (b : Bool) : SameTree (bool b) (bool b)
  | int (n : Int) : SameTree (int n) (int n)
  | float (x : Finite64) : SameTree (float x) (float x)
  | string (s : String) : SameTree (string s) (string s)
  | array {items items' : List Json} :
      SameItems items items' → SameTree (array items) (array items')
  | object {members members' : List (String × Json)} :
      (∀ k, k ∈ members.map Prod.fst ↔ k ∈ members'.map Prod.fst) →
      (∀ k v v', lastValue? k members = some v → lastValue? k members' = some v' →
        SameTree v v') →
      SameTree (object members) (object members')

/-- The items are the same trees, one by one. -/
inductive SameItems : List Json → List Json → Prop
  | nil : SameItems [] []
  | cons {v v' : Json} {r r' : List Json} :
      SameTree v v' → SameItems r r' → SameItems (v :: r) (v' :: r')
end

/-- Two objects have the same values under a key, if the values that the key has in them are the
same trees. -/
theorem map_normalize_lastValue?_iff {l m : List (String × Json)} {k : String}
    (hl : ∀ v, lastValue? k l = some v → ∀ w, SameTree v w ↔ v.normalize = w.normalize) :
    (lastValue? k l).map normalize = (lastValue? k m).map normalize ↔
      (k ∈ l.map Prod.fst ↔ k ∈ m.map Prod.fst) ∧
        ∀ v w, lastValue? k l = some v → lastValue? k m = some w → SameTree v w := by
  rw [← not_iff_not (a := k ∈ l.map Prod.fst), ← lastValue?_eq_none_iff, ← lastValue?_eq_none_iff]
  cases hlast : lastValue? k l with
  | none => cases lastValue? k m <;> simp
  | some v =>
    cases lastValue? k m with
    | none => simp
    | some w => simp [hl v hlast]

mutual
/-- **Documents are the same tree iff they have one normal form** (`normalize`). -/
theorem sameTree_iff : ∀ v w : Json, SameTree v w ↔ v.normalize = w.normalize
  | null, w => by
    constructor
    · rintro ⟨⟩
      rfl
    · intro h
      cases w <;> cases h
      exact .null
  | bool b, w => by
    constructor
    · rintro ⟨⟩
      rfl
    · intro h
      cases w <;> cases h
      exact .bool b
  | int n, w => by
    constructor
    · rintro ⟨⟩
      rfl
    · intro h
      cases w <;> cases h
      exact .int n
  | float x, w => by
    constructor
    · rintro ⟨⟩
      rfl
    · intro h
      cases w <;> cases h
      exact .float x
  | string s, w => by
    constructor
    · rintro ⟨⟩
      rfl
    · intro h
      cases w <;> cases h
      exact .string s
  | array l, w => by
    constructor
    · rintro ⟨⟩
      next m h => exact congrArg array ((sameItems_iff l m).1 h)
    · intro h
      cases w with
      | array m => exact .array ((sameItems_iff l m).2 (Json.array.inj h))
      | null | bool | int | float | string | object => cases h
  | object l, w => by
    have hvalues : ∀ k v, lastValue? k l = some v → ∀ w, SameTree v w ↔ v.normalize = w.normalize :=
      fun k v hv => sameValues_iff l (k, v) (mem_of_lastValue? hv)
    constructor
    · rintro ⟨⟩
      next m hkeys hsame =>
        exact normalize_object_eq_iff.2 fun k =>
          (map_normalize_lastValue?_iff (hvalues k)).2 ⟨hkeys k, hsame k⟩
    · intro h
      cases w with
      | object m =>
        have hboth := fun k =>
          (map_normalize_lastValue?_iff (hvalues k)).1 (normalize_object_eq_iff.1 h k)
        exact .object (fun k => (hboth k).1) fun k => (hboth k).2
      | null | bool | int | float | string | array => cases h

theorem sameItems_iff : ∀ l m : List Json, SameItems l m ↔ normalizeItems l = normalizeItems m
  | [], m => by
    constructor
    · rintro ⟨⟩
      rfl
    · intro h
      cases m with
      | nil => exact .nil
      | cons => cases h
  | v :: l, m => by
    constructor
    · rintro ⟨⟩
      next w m hv hl =>
        rw [normalizeItems, normalizeItems, (sameTree_iff v w).1 hv, (sameItems_iff l m).1 hl]
    · intro h
      cases m with
      | nil => cases h
      | cons w m =>
        obtain ⟨hv, hl⟩ := List.cons.inj h
        exact .cons ((sameTree_iff v w).2 hv) ((sameItems_iff l m).2 hl)

theorem sameValues_iff : ∀ l : List (String × Json), ∀ e ∈ l, ∀ w,
    SameTree e.2 w ↔ e.2.normalize = w.normalize
  | (k, v) :: l, e, he, w => by
    rcases List.mem_cons.1 he with rfl | hl
    · exact sameTree_iff v w
    · exact sameValues_iff l e hl w
end

/-! ## Texts of documents -/

/-- **A compact text is the text of one document.**  `readWhole` reads it as either of the two,
and reading has one result. -/
theorem eq_of_render_eq {v w : Json} (hv : v.isIntegral = true) (hw : w.isIntegral = true)
    (h : render v = render w) : v = w := by
  have hends : EndsNumber [] := fun c hc => nomatch hc
  have hread : ∀ u : Json, u.isIntegral = true → u.depth ≤ max v.depth w.depth →
      readValue (3 * (render u).length) (max v.depth w.depth) ([] ++ (render u ++ [])) =
        .ok (u, []) := fun u hu hdepth =>
    readValue_of_spells (spells_render u hu) gaps_nil (Nat.le_refl _) hdepth hends
  have hleft := hread v hv (Nat.le_max_left _ _)
  rw [h, hread w hw (Nat.le_max_right _ _)] at hleft
  exact (Prod.mk.inj (Except.ok.inj hleft)).1.symm

mutual
/-- Normalizing keeps the numbers. -/
theorem isIntegral_normalize : ∀ v : Json, v.isIntegral = true → v.normalize.isIntegral = true
  | null, _ | bool _, _ | string _, _ => rfl
  | int _, h => h
  | array items, h => isIntegral_normalizeItems items h
  | object members, h => by
    show integralMembers (normalizeMembers [] members) = true
    rw [integralMembers_iff]
    intro e he
    obtain ⟨m, hm, rfl⟩ := (mem_normalizeMembers he).resolve_left List.not_mem_nil
    exact isIntegral_normalizeValues members h m hm

theorem isIntegral_normalizeItems : ∀ l : List Json,
    integralItems l = true → integralItems (normalizeItems l) = true
  | [], _ => rfl
  | v :: r, h => by
    rw [integralItems, Bool.and_eq_true] at h
    rw [normalizeItems, integralItems, isIntegral_normalize v h.1,
      isIntegral_normalizeItems r h.2]
    rfl

theorem isIntegral_normalizeValues : ∀ l : List (String × Json), integralMembers l = true →
    ∀ e ∈ l, e.2.normalize.isIntegral = true
  | (k, v) :: r, h, e, he => by
    rw [integralMembers, Bool.and_eq_true] at h
    rcases List.mem_cons.1 he with rfl | hr
    · exact isIntegral_normalize v h.1
    · exact isIntegral_normalizeValues r h.2 e hr
end

/-! ## Agreement of arrays and objects -/

/-- The document is an array or an object, which `looselyEqual` compares by text. -/
def isStructure : Json → Bool
  | array _ | object _ => true
  | null | bool _ | int _ | float _ | string _ => false

theorem isStructure_normalize (v : Json) : v.normalize.isStructure = v.isStructure := by
  cases v <;> rfl

/-- An array or an object is no scalar, and its text is the compact one. -/
theorem of_isStructure {v : Json} (h : v.isStructure = true) :
    v ≠ null ∧ v.isNumber = false ∧ v.isTruth = false ∧ v.stringForm = v.compact := by
  cases v with
  | null | bool | int | float | string => cases h
  | array | object => exact ⟨nofun, rfl, rfl, rfl⟩

/-- Arrays and objects are compared by their compact texts. -/
theorem looselyEqual_iff_of_isStructure {v w : Json} (hv : v.isStructure = true)
    (hw : w.isStructure = true) : looselyEqual v w = true ↔ render v = render w := by
  obtain ⟨hvnull, hvnumber, hvtruth, hvtext⟩ := of_isStructure hv
  obtain ⟨hwnull, -, -, hwtext⟩ := of_isStructure hw
  have htext : ByText v w := ⟨hvnull, hwnull, by simp [hvnumber], by simp [hvtruth]⟩
  rw [looselyEqual_iff_of_byText htext, hvtext, hwtext]
  exact String.ofList_inj

/-- **Arrays and objects agree iff they are the same tree**: `looselyEqual` on normal forms
against `SameTree`. -/
theorem looselyEqual_normalize_iff {d e : Json} (hd : d.isStructure = true)
    (he : e.isStructure = true) (hdi : d.isIntegral = true) (hei : e.isIntegral = true) :
    looselyEqual d.normalize e.normalize = true ↔ SameTree d e := by
  rw [looselyEqual_iff_of_isStructure ((isStructure_normalize d).trans hd)
    ((isStructure_normalize e).trans he), sameTree_iff]
  constructor
  · exact eq_of_render_eq (isIntegral_normalize d hdi) (isIntegral_normalize e hei)
  · exact congrArg render

/-! ## Parts of a document -/

/-- A place in an array or in an object, with everything around it; a member counts if no member
with its key follows. -/
inductive Frame where
  | item (before after : List Json)
  | member (before : List (String × Json)) (key : String) (after : List (String × Json))
      (counts : key ∉ after.map Prod.fst)

/-- The array or object with a part at the place. -/
def Frame.fill (v : Json) : Frame → Json
  | item before after => array (before ++ v :: after)
  | member before key after _ => object (before ++ (key, v) :: after)

/-- The document with a part at a place that is given by the places around it (`Frame`), outermost
first. -/
def fillAt (v : Json) : List Frame → Json
  | [] => v
  | f :: r => f.fill (fillAt v r)

/-- Around a place nothing is asked of the part but its normal form. -/
theorem Frame.sameTree_fill_iff (f : Frame) (v w : Json) :
    SameTree (f.fill v) (f.fill w) ↔ SameTree v w := by
  rw [sameTree_iff, sameTree_iff]
  cases f with
  | item before after =>
    show array (normalizeItems _) = array (normalizeItems _) ↔ _
    simp [normalizeItems_eq_map]
  | member before key after counts =>
    show normalize (object _) = normalize (object _) ↔ _
    rw [normalize_object_eq_iff]
    have hlast : ∀ (u : Json) (k : String), lastValue? k (before ++ (key, u) :: after) =
        (lastValue? k after).or (if key = k then some u else lastValue? k before) := by
      intro u k
      simp only [lastValue?, List.reverse_append, List.reverse_cons, List.append_assoc,
        List.singleton_append, Table.lookup_append, Table.lookup]
    simp only [hlast]
    constructor
    · intro h
      have hkey := h key
      rw [lastValue?_eq_none_iff.2 counts] at hkey
      simpa using hkey
    · intro h k
      cases lastValue? k after with
      | some u => rfl
      | none =>
        simp only [Option.none_or]
        split
        · exact congrArg some h
        · rfl

/-- **A part of a document counts, wherever it stands**: `fillAt` with two parts gives the same
tree iff the parts are the same. -/
theorem sameTree_fillAt_iff (frames : List Frame) (v w : Json) :
    SameTree (fillAt v frames) (fillAt w frames) ↔ SameTree v w := by
  induction frames with
  | nil => exact Iff.rfl
  | cons f r ih => exact (f.sameTree_fill_iff _ _).trans ih

/-- Scalars whose texts are alike. -/
def lookalikes : List Json := [int 5, string "5", bool true, string "true", null, string "null"]

theorem pairwise_lookalikes : lookalikes.Pairwise fun v w => ¬ SameTree v w := by
  simp [lookalikes, sameTree_iff, normalize]

/-- **Equality of structured values is equality of trees.**  Two documents that are each an array
or an object (`isStructure`), with integers of 64 bits for numbers, agree as values
(`looselyEqual`) iff they are the same tree (`SameTree`); so do the values of two texts that hold
the documents, in whatever order the members are written.  An array never agrees with an object,
and no two `lookalikes` are taken for each other at any place inside an array or an object
(`fillAt`). -/
theorem looselyEqual_structures :
    (∀ d e : Json, d.isStructure = true → e.isStructure = true → d.isIntegral = true →
      e.isIntegral = true →
      (looselyEqual d.normalize e.normalize = true ↔ SameTree d e) ∧
      ∀ s t : String, readDocument s = .ok d → readDocument t = .ok e →
        ∃ a b, parse s = .ok a ∧ parse t = .ok b ∧
          (looselyEqual a b = true ↔ SameTree d e)) ∧
    (∀ (items : List Json) (members : List (String × Json)),
      looselyEqual (array items) (object members) = false ∧
      looselyEqual (object members) (array items) = false) ∧
    lookalikes.Pairwise fun v w => ∀ (f : Frame) (r : List Frame),
      (fillAt v (f :: r)).isIntegral = true → (fillAt w (f :: r)).isIntegral = true →
      looselyEqual (fillAt v (f :: r)).normalize (fillAt w (f :: r)).normalize = false := by
  refine ⟨fun d e hd he hdi hei => ?_, fun items members => ?_, ?_⟩
  · have hiff := looselyEqual_normalize_iff hd he hdi hei
    refine ⟨hiff, fun s t hs ht => ⟨d.normalize, e.normalize, ?_, ?_, hiff⟩⟩
    · rw [parse, hs]
      rfl
    · rw [parse, ht]
      rfl
  · have hfalse : looselyEqual (array items) (object members) = false := by
      rw [Bool.eq_false_iff, Ne, looselyEqual_iff_of_isStructure rfl rfl]
      -- a bracket is no brace
      intro h
      cases (List.cons.inj h).1
    exact ⟨hfalse, (looselyEqual_comm _ _).trans hfalse⟩
  · refine pairwise_lookalikes.imp fun {v w} hvw f r hv hw => ?_
    have hstructure : ∀ u : Json, (fillAt u (f :: r)).isStructure = true := by
      intro u
      cases f <;> rfl
    rw [Bool.eq_false_iff, Ne, looselyEqual_normalize_iff (hstructure v) (hstructure w) hv hw,
      sameTree_fillAt_iff]
    exact hvw

namespace Reordered

/-- Two texts of one tree, the members of both objects in another order. -/
def texts : String × String :=
  ("\x7b\"a\":[5,null],\"b\":\x7b\"c\":true,\"d\":\"null\"\x7d\x7d",
    "\x7b\"b\":\x7b\"d\":\"null\",\"c\":true\x7d,\"a\":[5,null]\x7d")

/-- The two documents that the texts hold. -/
def documents : Json × Json :=
  (object [("a", array [int 5, null]), ("b", object [("c", bool true), ("d", string "null")])],
    object [("b", object [("d", string "null"), ("c", bool true)]), ("a", array [int 5, null])])

/-- The place of the `5` in the first document. -/
def place : Frame × List Frame :=
  (.member [] "a" [("b", object [("c", bool true), ("d", string "null")])] (by decide),
    [.item [] [null]])

end Reordered

/-- Two orders of the members are one tree; a text in place of its first number makes another. -/
theorem looselyEqual_structures_reordered :
    (Reordered.documents.1.isStructure = true ∧ Reordered.documents.2.isStructure = true ∧
      Reordered.documents.1.isIntegral = true ∧ Reordered.documents.2.isIntegral = true) ∧
    (∃ a b, parse Reordered.texts.1 = .ok a ∧ parse Reordered.texts.2 = .ok b ∧
      looselyEqual a b = true) ∧
    fillAt (int 5) (Reordered.place.1 :: Reordered.place.2) = Reordered.documents.1 ∧
    looselyEqual (fillAt (int 5) (Reordered.place.1 :: Reordered.place.2)).normalize
      (fillAt (string "5") (Reordered.place.1 :: Reordered.place.2)).normalize = false := by
  have hfirst : readDocument Reordered.texts.1 = .ok Reordered.documents.1 := by
    rw [show Reordered.texts.1 = Reordered.documents.1.compact by decide +kernel]
    exact readDocument_compact rfl (by decide)
  have hsecond : readDocument Reordered.texts.2 = .ok Reordered.documents.2 := by
    rw [show Reordered.texts.2 = Reordered.documents.2.compact by decide +kernel]
    exact readDocument_compact rfl (by decide)
  have hsame : SameTree Reordered.documents.1 Reordered.documents.2 := (sameTree_iff _ _).2 rfl
  obtain ⟨hstructures, -, hlookalikes⟩ := looselyEqual_structures
  obtain ⟨a, b, ha, hb, hiff⟩ :=
    (hstructures Reordered.documents.1 Reordered.documents.2 rfl rfl rfl rfl).2 _ _ hfirst hsecond
  refine ⟨⟨rfl, rfl, rfl, rfl⟩, ⟨a, b, ha, hb, hiff.2 hsame⟩, rfl, ?_⟩
  exact (List.pairwise_cons.1 hlookalikes).1 (string "5") List.mem_cons_self _ _ rfl rfl

end RestCase.Json
