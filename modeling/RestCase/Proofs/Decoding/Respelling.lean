/-
# RestCase.Proofs.Decoding.Respelling — documents that are spelled in different ways

A field may have several names, and a value several spellings.  A YAML document is respelled by
choosing other ones at some of the places where they are read; what stands anywhere else stays as it
is.  A decoder *keeps* a respelling (`Keeps`) when it makes of the respelled node what it made of
the first one, and when no key comes twice in the respelled node, provided that none did in the
first.  Lists and records keep the respellings of their parts (`Keeps.list`,
`Interchangeable.keeps_record`).

That no key comes twice is the delicate half: the new name of one entry could be the name of another
one.  It is not, since both entries would be read into one place, and a place is filled only once.
`FilledOnce` is this property of a place of the draft, and `FilledOnce.of_readAt` has it for every
field that is read by filling its place.
-/
import RestCase.Proofs.Decoding.Records

namespace RestCase

/-! ## Nodes below their tags -/

/-- Of two nodes that are the same, both are one text below their tags, or neither is. -/
theorem Node.untagged_of_same (a : Node) : ∀ b : Node, a.same b = true → ∀ s : String,
    (a.untagged = .string s ↔ b.untagged = .string s) := by
  induction a using Node.rec (motive_2 := fun _ => True) (motive_3 := fun _ => True)
    (motive_4 := fun _ => True) with
  | tagged tag v ih =>
    intro b h s
    cases b with
    | tagged tag' w =>
      have hsame : v.same w = true := by
        simp only [same, Bool.and_eq_true] at h
        exact h.2
      exact ih w hsame s
    | _ => simp [same] at h
  | string x =>
    intro b h s
    cases b with
    | string y =>
      obtain rfl : x = y := by simpa [same] using h
      rfl
    | _ => simp [same] at h
  | null | bool | int | float | sequence | mapping =>
    intro b h s
    cases b with
    | tagged | string => simp [same] at h
    | _ => simp [untagged]
  | _ => trivial

namespace Decoding

variable {α β δ : Type}

/-- The tags around a node have no keys. -/
theorem distinct_untagged (v : Node) : distinct v.untagged = distinct v := by
  induction v using Node.rec (motive_2 := fun _ => True) (motive_3 := fun _ => True)
    (motive_4 := fun _ => True) with
  | tagged tag v ih =>
    rw [Node.untagged, distinct]
    exact ih
  | null | bool | int | float | string | sequence | mapping => rfl
  | _ => trivial

theorem distinct_of_untagged_string {v : Node} {s : String} (h : v.untagged = .string s) :
    distinct v = .ok () := by
  rw [← distinct_untagged, h]
  rfl

theorem fieldName_eq_ok_iff {key : Node} {f : String} :
    fieldName .yaml key = .ok f ↔ key.untagged = .string f := by
  unfold fieldName untaggedIn
  rw [if_pos rfl]
  split
  · next s hs => rw [hs]; simp
  · next w hw =>
    constructor
    · intro h
      cases h
    · intro h
      exact absurd h (hw f)

/-! ## Keeping a respelling -/

/-- The decoder makes of a respelled node what it made of the first one, and no key comes twice in
it that did not. -/
def Keeps (decode : Node → Decoded α) (R : Node → Node → Prop) : Prop :=
  ∀ v v' a, R v v' → decode v = .ok a →
    decode v' = .ok a ∧ (distinct v = .ok () → distinct v' = .ok ())

section Keeps

variable {decode : Node → Decoded α} {R : Node → Node → Prop}

theorem Keeps.bind (h : Keeps decode R) (k : α → Decoded β) :
    Keeps (fun v => decode v >>= k) R := by
  intro v v' b hv hb
  obtain ⟨a, ha, hk⟩ := bind_eq_ok_iff.1 hb
  obtain ⟨hread, hdistinct⟩ := h v v' a hv ha
  exact ⟨bind_eq_ok_iff.2 ⟨a, hread, hk⟩, hdistinct⟩

/-- An optional value keeps a respelling that tells null from everything else. -/
theorem Keeps.optional (h : Keeps decode R) (hnull : ∀ v v', R v v' → (v' = .null ↔ v = .null)) :
    Keeps (Decoding.optional decode) R := by
  intro v v' x hv hx
  rcases optional_eq_ok_iff.1 hx with ⟨rfl, rfl⟩ | ⟨hv₀, a, ha, rfl⟩
  · obtain rfl := (hnull _ _ hv).2 rfl
    exact ⟨rfl, id⟩
  · obtain ⟨hread, hdistinct⟩ := h v v' a hv ha
    have hv₀' : v' ≠ .null := fun hv' => hv₀ ((hnull _ _ hv).1 hv')
    exact ⟨optional_eq_ok_iff.2 (Or.inr ⟨hv₀', a, hread, rfl⟩), hdistinct⟩

/-- A place that is filled with a value is filled with the respelled one. -/
theorem Keeps.fill_bind (h : Keeps decode R) {v v' : Node} (hv : R v v') {field : String}
    {place : Option α} {g : Option α → δ} {r : δ}
    (hr : (fill field place (decode v) >>= fun p => pure (g p)) = .ok r) :
    (fill field place (decode v') >>= fun p => pure (g p)) = .ok r ∧
      (distinct v = .ok () → distinct v' = .ok ()) := by
  obtain ⟨hfree, a, ha, hg⟩ := fill_bind_eq_ok_iff.1 hr
  obtain ⟨hread, hdistinct⟩ := h v v' a hv ha
  exact ⟨fill_bind_eq_ok_iff.2 ⟨hfree, a, hread, hg⟩, hdistinct⟩

end Keeps

/-! ## Lists -/

/-- The items are respelled one by one; tags around the list do not matter. -/
def ListRespelled (R : Node → Node → Prop) (v v' : Node) : Prop :=
  v' = v ∨ ∃ items items', v.untagged = .sequence items ∧ v'.untagged = .sequence items' ∧
    List.Forall₂ R items items'

theorem ListRespelled.of_items {R : Node → Node → Prop} {items items' : List Node}
    (h : List.Forall₂ R items items') : ListRespelled R (.sequence items) (.sequence items') :=
  Or.inr ⟨items, items', rfl, rfl, h⟩

theorem itemsOf_of_untagged {v : Node} {items : List Node} (h : v.untagged = .sequence items) :
    itemsOf .yaml v = .ok items := by
  unfold itemsOf untaggedIn
  rw [if_pos rfl, h]

theorem distinct_of_untagged_sequence {v : Node} {items : List Node}
    (h : v.untagged = .sequence items) : distinct v = distinctItems items := by
  rw [← distinct_untagged, h]
  rfl

/-- Items that are decoded one by one keep the respelling of each. -/
theorem Keeps.items {decode : Node → Decoded α} {R : Node → Node → Prop} (h : Keeps decode R)
    {items items' : List Node} (hitems : List.Forall₂ R items items') :
    ∀ {l : List α}, List.Forall₂ (fun v a => decode v = .ok a) items l →
      List.Forall₂ (fun v a => decode v = .ok a) items' l ∧
        (distinctItems items = .ok () → distinctItems items' = .ok ()) := by
  induction hitems with
  | nil =>
    intro l hl
    exact ⟨hl, id⟩
  | @cons v v' items items' hv _ ih =>
    intro l hl
    obtain ⟨a, l, ha, hrest, rfl⟩ := List.forall₂_cons_left_iff.1 hl
    obtain ⟨hread, hdistinct⟩ := h v v' a hv ha
    obtain ⟨hreads, hdistincts⟩ := ih hrest
    refine ⟨.cons hread hreads, ?_⟩
    rw [distinctItems_eq_ok_iff, distinctItems_eq_ok_iff, List.forall_mem_cons,
      List.forall_mem_cons, ← distinctItems_eq_ok_iff, ← distinctItems_eq_ok_iff]
    exact And.imp hdistinct hdistincts

/-- **A list keeps** the respellings of its items (`ListRespelled`). -/
theorem Keeps.list {decode : Node → Decoded α} {R : Node → Node → Prop} (h : Keeps decode R) :
    Keeps (Decoding.list .yaml decode) (ListRespelled R) := by
  intro v v' l hv hl
  rcases hv with rfl | ⟨items, items', hv, hv', hitems⟩
  · exact ⟨hl, id⟩
  · obtain ⟨_, hfound, hdecoded⟩ := list_eq_ok_iff.1 hl
    obtain rfl := Except.ok.inj ((itemsOf_of_untagged hv).symm.trans hfound)
    obtain ⟨hreads, hdistinct⟩ := h.items hitems hdecoded
    refine ⟨list_eq_ok_iff.2 ⟨items', itemsOf_of_untagged hv', hreads⟩, ?_⟩
    rw [distinct_of_untagged_sequence hv, distinct_of_untagged_sequence hv']
    exact hdistinct

/-! ## Records -/

/-- An entry of a record respelled: its key by another name of the same field, and its value in a
way that the field allows.  Either may stay as it is. -/
structure EntryRespelled (names : List (List String)) (inner : String → Node → Node → Prop)
    (e e' : Node × Node) : Prop where
  key : e'.1 = e.1 ∨ ∃ g ∈ names, ∃ f ∈ g, ∃ f' ∈ g,
    e.1.untagged = .string f ∧ e'.1.untagged = .string f'
  value : e'.2 = e.2 ∨ ∃ f, e.1.untagged = .string f ∧ inner f e.2 e'.2

namespace EntryRespelled

variable {names : List (List String)} {inner : String → Node → Node → Prop}

theorem kept {e : Node × Node} : EntryRespelled names inner e e := ⟨Or.inl rfl, Or.inl rfl⟩

theorem renamed {f f' : String} {v : Node} (h : ∃ g ∈ names, f ∈ g ∧ f' ∈ g) :
    EntryRespelled names inner (.string f, v) (.string f', v) := by
  obtain ⟨g, hg, hf, hf'⟩ := h
  exact ⟨Or.inr ⟨g, hg, f, hf, f', hf', rfl, rfl⟩, Or.inl rfl⟩

theorem changed {f : String} {v v' : Node} (h : inner f v v') :
    EntryRespelled names inner (.string f, v) (.string f, v') :=
  ⟨Or.inl rfl, Or.inr ⟨f, rfl, h⟩⟩

end EntryRespelled

/-- The entries are respelled one by one; tags around the record do not matter. -/
def RecordRespelled (names : List (List String)) (inner : String → Node → Node → Prop)
    (v v' : Node) : Prop :=
  v' = v ∨ ∃ entries entries', v.untagged = .mapping entries ∧ v'.untagged = .mapping entries' ∧
    List.Forall₂ (EntryRespelled names inner) entries entries'

theorem RecordRespelled.of_entries {names : List (List String)}
    {inner : String → Node → Node → Prop} {entries entries' : List (Node × Node)}
    (h : List.Forall₂ (EntryRespelled names inner) entries entries') :
    RecordRespelled names inner (.mapping entries) (.mapping entries') :=
  Or.inr ⟨entries, entries', rfl, rfl, h⟩

/-- No respelling of a record makes it null. -/
theorem RecordRespelled.null_iff {names : List (List String)} {inner : String → Node → Node → Prop}
    {v v' : Node} (h : RecordRespelled names inner v v') : v' = .null ↔ v = .null := by
  rcases h with rfl | ⟨entries, entries', hv, hv', -⟩
  · rfl
  · constructor
    · rintro rfl
      cases hv'
    · rintro rfl
      cases hv

/-- One of the names is the key of the entry. -/
def Named (g : List String) (e : Node × Node) : Prop := ∃ f ∈ g, e.1.untagged = .string f

/-- One entry of a record, as `record` reads it in YAML. -/
def readEntry (add : δ → String → Node → Decoded δ) (r : δ) (e : Node × Node) : Decoded δ := do
  add r (← fieldName .yaml e.1) e.2

theorem readEntry_eq_ok_iff {add : δ → String → Node → Decoded δ} {r r' : δ} {e : Node × Node} :
    readEntry add r e = .ok r' ↔ ∃ f, e.1.untagged = .string f ∧ add r f e.2 = .ok r' := by
  simp only [readEntry, bind_eq_ok_iff, fieldName_eq_ok_iff]

theorem record_of_untagged {layout : Layout} {empty : δ} {add : δ → String → Node → Decoded δ}
    {v : Node} {entries : List (Node × Node)} (h : v.untagged = .mapping entries) :
    record .yaml layout empty add v = entries.foldlM (readEntry add) empty := by
  unfold record untaggedIn
  rw [if_pos rfl, h]
  rfl

/-- A place that each of the names fills, when it is free, and that no other name touches. -/
def FilledOnce (add : δ → String → Node → Decoded δ) (g : List String) (Filled : δ → Prop) : Prop :=
  ∀ r r' f v, add r f v = .ok r' →
    (f ∈ g → ¬ Filled r ∧ Filled r') ∧ (f ∉ g → (Filled r' ↔ Filled r))

/-- What reading one field does to a place of a draft.  A field with the place as its `own` is read
into it, another field is read into another place, and a field that is not known is read over. -/
inductive ReadAt {α : Type} (place : δ → Option α) (own : Prop) (r : δ) : Decoded δ → Prop
  | own {field : String} {value : Decoded α} {put : Option α → δ} (hown : own)
      (hput : ∀ x, place (put x) = x) :
      ReadAt place own r (fill field (place r) value >>= fun x => pure (put x))
  | other {β : Type} {field : String} {free : Option β} {value : Decoded β} {put : Option β → δ}
      (hother : ¬own) (hput : ∀ x, place (put x) = place r) :
      ReadAt place own r (fill field free value >>= fun x => pure (put x))
  | unknown (hother : ¬own) : ReadAt place own r (.ok r)

/-- **A place that fields are read into is filled once**, as `fill` takes only a free place. -/
theorem FilledOnce.of_readAt {α : Type} {add : δ → String → Node → Decoded δ} {g : List String}
    (place : δ → Option α) (h : ∀ r f v, ReadAt place (f ∈ g) r (add r f v)) :
    FilledOnce add g (place · ≠ none) := by
  intro r r' f v hadd
  have hread := h r f v
  generalize add r f v = step at hadd hread
  cases hread with
  | own hown hput =>
    obtain ⟨hfree, x, -, rfl⟩ := fill_bind_eq_ok_iff.1 hadd
    exact ⟨fun _ => ⟨not_not.2 hfree, by simp [hput]⟩, fun hother => absurd hown hother⟩
  | other hother hput =>
    obtain ⟨-, x, -, rfl⟩ := fill_bind_eq_ok_iff.1 hadd
    exact ⟨fun hown => absurd hown hother, fun _ => by simp only [hput]⟩
  | unknown hother =>
    obtain rfl := Except.ok.inj hadd
    exact ⟨fun hown => absurd hown hother, fun _ => Iff.rfl⟩

/-- What lets the names of a field and the spellings of its value be exchanged. -/
structure Interchangeable (add : δ → String → Node → Decoded δ) (names : List (List String))
    (inner : String → Node → Node → Prop) : Prop where
  /-- The names of a field do the same. -/
  alike : ∀ g ∈ names, ∀ f ∈ g, ∀ f' ∈ g, ∀ r v, add r f v = add r f' v
  /-- They do it once. -/
  once : ∀ g ∈ names, ∃ Filled : δ → Prop, FilledOnce add g Filled
  /-- No name is the name of two fields. -/
  apart : ∀ g ∈ names, ∀ g' ∈ names, ∀ f ∈ g, f ∈ g' → g = g'
  /-- The spellings of a value are read alike. -/
  values : ∀ {r r' f v v'}, inner f v v' → add r f v = .ok r' →
    add r f v' = .ok r' ∧ (distinct v = .ok () → distinct v' = .ok ())

section Records

variable {add : δ → String → Node → Decoded δ} {names : List (List String)}
  {inner : String → Node → Node → Prop}

/-- **What fills a place comes once**: of the entries of a record that is read, at most one has one
of the names, and none has if the place was filled before. -/
theorem FilledOnce.pairwise {g : List String} {Filled : δ → Prop} (h : FilledOnce add g Filled) :
    ∀ {l : List (Node × Node)} {r s : δ}, l.foldlM (readEntry add) r = .ok s →
      (Filled r → ∀ e ∈ l, ¬ Named g e) ∧ l.Pairwise fun a b => ¬ (Named g a ∧ Named g b)
  | [], _, _, _ => ⟨fun _ => by simp, .nil⟩
  | e :: l, r, s, hs => by
    rw [List.foldlM_cons] at hs
    obtain ⟨r', hr', hrest⟩ := bind_eq_ok_iff.1 hs
    obtain ⟨f, hf, hadd⟩ := readEntry_eq_ok_iff.1 hr'
    obtain ⟨hfills, hleaves⟩ := h _ _ _ _ hadd
    obtain ⟨hnone, hpairwise⟩ := FilledOnce.pairwise h hrest
    have hnamed : Named g e → f ∈ g := by
      rintro ⟨f', hf', hkey⟩
      rw [hf] at hkey
      exact Node.string.inj hkey ▸ hf'
    refine ⟨?_, List.pairwise_cons.2 ⟨?_, hpairwise⟩⟩
    -- a filled place stays filled past an entry with another name
    · intro hfilled
      have hother : f ∉ g := fun hfg => (hfills hfg).1 hfilled
      have hfilled' : Filled r' := (hleaves hother).2 hfilled
      exact List.forall_mem_cons.2 ⟨fun he => hother (hnamed he), hnone hfilled'⟩
    · rintro b hb ⟨he, hbnamed⟩
      exact hnone (hfills (hnamed he)).2 b hb hbnamed

namespace Interchangeable

/-- An entry is read by `readEntry` as it was before it was respelled (`EntryRespelled`). -/
theorem readEntry_respelled (h : Interchangeable add names inner) {e e' : Node × Node} {r r' : δ}
    (he : EntryRespelled names inner e e') (hr : readEntry add r e = .ok r') :
    readEntry add r e' = .ok r' ∧
      (distinct e.2 = .ok () → distinct e'.1 = .ok () ∧ distinct e'.2 = .ok ()) := by
  obtain ⟨f, hf, hadd⟩ := readEntry_eq_ok_iff.1 hr
  -- the value first, under the name that the key had; then the name
  have hvalue : add r f e'.2 = .ok r' ∧ (distinct e.2 = .ok () → distinct e'.2 = .ok ()) := by
    rcases he.value with hsame | ⟨f', hf', hinner⟩
    · rw [hsame]
      exact ⟨hadd, id⟩
    · obtain rfl := Node.string.inj (hf'.symm.trans hf)
      exact h.values hinner hadd
  obtain ⟨hadd', hdistinct⟩ := hvalue
  have hkey : ∃ f', e'.1.untagged = .string f' ∧ add r f' e'.2 = .ok r' := by
    rcases he.key with hsame | ⟨g, hg, f₁, hf₁, f', hf', huntagged, huntagged'⟩
    · exact ⟨f, hsame ▸ hf, hadd'⟩
    · obtain rfl := Node.string.inj (huntagged.symm.trans hf)
      rw [h.alike g hg f₁ hf₁ f' hf'] at hadd'
      exact ⟨f', huntagged', hadd'⟩
  obtain ⟨f', hf', hread⟩ := hkey
  exact ⟨readEntry_eq_ok_iff.2 ⟨f', hf', hread⟩,
    fun hv => ⟨distinct_of_untagged_string hf', hdistinct hv⟩⟩

theorem foldlM_respelled (h : Interchangeable add names inner) {l l' : List (Node × Node)}
    (hl : List.Forall₂ (EntryRespelled names inner) l l') :
    ∀ {r s : δ}, l.foldlM (readEntry add) r = .ok s →
      l'.foldlM (readEntry add) r = .ok s ∧
        ((∀ e ∈ l, distinct e.2 = .ok ()) →
          ∀ e ∈ l', distinct e.1 = .ok () ∧ distinct e.2 = .ok ()) := by
  -- both lists of entries are read side by side, from any draft on
  induction hl with
  | nil =>
    intro r s hs
    exact ⟨hs, fun _ => by simp⟩
  | @cons e e' l l' he _ ih =>
    intro r s hs
    rw [List.foldlM_cons] at hs ⊢
    obtain ⟨r', hr', hrest⟩ := bind_eq_ok_iff.1 hs
    obtain ⟨hread, hparts⟩ := h.readEntry_respelled he hr'
    obtain ⟨hreads, hdistinct⟩ := ih hrest
    refine ⟨bind_eq_ok_iff.2 ⟨r', hread, hreads⟩, ?_⟩
    rw [List.forall_mem_cons, List.forall_mem_cons]
    exact And.imp hparts hdistinct

/-- A name of a field, if it is there after the respelling, was there before under a name of the
same field. -/
theorem named_of_respelled (h : Interchangeable add names inner) {e e' : Node × Node}
    (he : EntryRespelled names inner e e') {g : List String} (hg : g ∈ names)
    (hnamed : Named g e') : Named g e := by
  obtain ⟨f', hf', hkey'⟩ := hnamed
  rcases he.key with hsame | ⟨g₁, hg₁, f₁, hf₁, f₁', hf₁', huntagged, huntagged'⟩
  · exact ⟨f', hf', hsame ▸ hkey'⟩
  · obtain rfl := Node.string.inj (huntagged'.symm.trans hkey')
    obtain rfl := h.apart g₁ hg₁ g hg f₁' hf₁' hf'
    exact ⟨f₁, hf₁, huntagged⟩

/-- Two entries that are apart stay so. -/
theorem not_same_of_respelled (h : Interchangeable add names inner) {a a' b b' : Node × Node}
    (ha : EntryRespelled names inner a a') (hb : EntryRespelled names inner b b')
    (honce : ∀ g ∈ names, ¬ (Named g a ∧ Named g b)) (hapart : b.1.same a.1 = false) :
    b'.1.same a'.1 = false := by
  rw [Bool.eq_false_iff]
  intro hsame
  have hboth : ∀ g ∈ names, ∀ f ∈ g, a'.1.untagged = .string f → False := by
    intro g hg f hf hkey
    have hkey' : b'.1.untagged = .string f := (b'.1.untagged_of_same a'.1 hsame f).2 hkey
    exact honce g hg
      ⟨h.named_of_respelled ha hg ⟨f, hf, hkey⟩, h.named_of_respelled hb hg ⟨f, hf, hkey'⟩⟩
  -- a renamed key among the two would be the name of a field that both have
  rcases ha.key with hkept | ⟨g, hg, -, -, f', hf', -, hkey⟩
  · rcases hb.key with hkept' | ⟨g, hg, -, -, f', hf', -, hkey⟩
    · rw [hkept, hkept', hapart] at hsame
      cases hsame
    · exact hboth g hg f' hf' ((b'.1.untagged_of_same a'.1 hsame f').1 hkey)
  · exact hboth g hg f' hf' hkey

/-- No key comes twice among respelled entries of a record that is read. -/
theorem distinctEntries_respelled (h : Interchangeable add names inner)
    {l l' : List (Node × Node)} (hl : List.Forall₂ (EntryRespelled names inner) l l') {r s : δ}
    (hs : l.foldlM (readEntry add) r = .ok s) (hdistinct : distinctEntries [] l = .ok ()) :
    distinctEntries [] l' = .ok () := by
  obtain ⟨hparts, hapart, -⟩ := distinctEntries_eq_ok_iff.1 hdistinct
  obtain ⟨-, hparts'⟩ := h.foldlM_respelled hl hs
  refine distinctEntries_eq_ok_iff.2 ⟨hparts' fun e he => (hparts e he).2, ?_,
    fun _ _ _ hk => absurd hk List.not_mem_nil⟩
  rw [List.pairwise_iff_getElem] at hapart ⊢
  intro i j hi hj hij
  have hlength : l.length = l'.length := hl.length_eq
  have hi₀ : i < l.length := by omega
  have hj₀ : j < l.length := by omega
  refine h.not_same_of_respelled (hl.get hi₀ hi) (hl.get hj₀ hj) ?_ (hapart i j hi₀ hj₀ hij)
  intro g hg
  obtain ⟨Filled, hfilled⟩ := h.once g hg
  exact List.pairwise_iff_getElem.1 (FilledOnce.pairwise hfilled hs).2 i j hi₀ hj₀ hij

/-- **A record keeps** other names of its fields and the respellings of their values
(`RecordRespelled`), if these are `Interchangeable`. -/
theorem keeps_record (h : Interchangeable add names inner) {layout : Layout} {empty : δ} :
    Keeps (record .yaml layout empty add) (RecordRespelled names inner) := by
  intro v v' r hv hr
  rcases hv with rfl | ⟨entries, entries', hv, hv', hentries⟩
  · exact ⟨hr, id⟩
  · rw [record_of_untagged hv] at hr
    rw [record_of_untagged hv', ← distinct_untagged v, ← distinct_untagged v', hv, hv']
    exact ⟨(h.foldlM_respelled hentries hr).1, h.distinctEntries_respelled hentries hr⟩

end Interchangeable

end Records

end Decoding

end RestCase
