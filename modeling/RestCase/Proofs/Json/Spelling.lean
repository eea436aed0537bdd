/-
# RestCase.Proofs.Json.Spelling — texts that spell a document

A document has many texts, which differ in the blanks between their parts.  `Spells` lists them, one
constructor for each way to write a value, for documents whose numbers are integers of 64 bits.
Whatever spells a document is read as that document, and reading stops where the text of the value
stops (`readValue_of_spells`); what a writer puts out has to be shown to spell its document, and
nothing else about the reader has to be known.

The compact text is the first case (`spells_render`, `readDocument_compact`).

Boundary: a document with a binary64 number spells nothing here, since such a number need not be
read as itself.
-/
import RestCase.Proofs.Json.Scalars

namespace RestCase.Json

/-! ## Documents that a text can keep -/

mutual
/-- Every number of the document is an integer of 64 bits. -/
def isIntegral : Json → Bool
  | null | bool _ | string _ => true
  | int n => decide (IsWord n)
  | float _ => false
  | array items => integralItems items
  | object members => integralMembers members

/-- Every number of the items is an integer of 64 bits. -/
def integralItems : List Json → Bool
  | [] => true
  | v :: r => isIntegral v && integralItems r

/-- Every number of the members is an integer of 64 bits. -/
def integralMembers : List (String × Json) → Bool
  | [] => true
  | (_, v) :: r => isIntegral v && integralMembers r
end

mutual
/-- How deep arrays and objects are nested. -/
def depth : Json → Nat
  | array items => itemsDepth items + 1
  | object members => membersDepth members + 1
  | null | bool _ | int _ | float _ | string _ => 0

/-- The depth of the deepest item. -/
def itemsDepth : List Json → Nat
  | [] => 0
  | v :: r => max (depth v) (itemsDepth r)

/-- The depth of the deepest member. -/
def membersDepth : List (String × Json) → Nat
  | [] => 0
  | (_, v) :: r => max (depth v) (membersDepth r)
end

theorem integralItems_iff {l : List Json} :
    integralItems l = true ↔ ∀ v ∈ l, v.isIntegral = true := by
  induction l with
  | nil => simp [integralItems]
  | cons v r ih =>
    rw [integralItems, Bool.and_eq_true, ih, List.forall_mem_cons]

theorem itemsDepth_le_iff {l : List Json} {n : Nat} :
    itemsDepth l ≤ n ↔ ∀ v ∈ l, v.depth ≤ n := by
  induction l with
  | nil => simp [itemsDepth]
  | cons v r ih =>
    rw [itemsDepth, Nat.max_le, ih, List.forall_mem_cons]

theorem integralMembers_iff {l : List (String × Json)} :
    integralMembers l = true ↔ ∀ e ∈ l, e.2.isIntegral = true := by
  induction l with
  | nil => simp [integralMembers]
  | cons e r ih =>
    rw [integralMembers, Bool.and_eq_true, ih, List.forall_mem_cons]

theorem membersDepth_le_iff {l : List (String × Json)} {n : Nat} :
    membersDepth l ≤ n ↔ ∀ e ∈ l, e.2.depth ≤ n := by
  induction l with
  | nil => simp [membersDepth]
  | cons e r ih =>
    rw [membersDepth, Nat.max_le, ih, List.forall_mem_cons]

theorem membersDepth_lt_iff {l : List (String × Json)} {n : Nat} (hn : 0 < n) :
    membersDepth l < n ↔ ∀ e ∈ l, e.2.depth < n := by
  obtain ⟨m, rfl⟩ := Nat.exists_eq_succ_of_ne_zero (Nat.ne_of_gt hn)
  simp only [Nat.lt_succ_iff, membersDepth_le_iff]

/-! ## Blanks between the parts of a text -/

/-- The text is made of blanks. -/
def Gaps (g : List Char) : Prop := ∀ c ∈ g, isGap c = true

@[simp] theorem gaps_nil : Gaps [] := fun _ h => absurd h List.not_mem_nil

/-- Blanks are skipped up to the first character that is none. -/
theorem skipGaps_append {g : List Char} (hg : Gaps g) {c : Char} (hc : isGap c = false)
    (r : List Char) : skipGaps (g ++ c :: r) = c :: r := by
  rw [skipGaps, List.dropWhile_append_of_pos hg, List.dropWhile_cons_of_neg]
  simp [hc]

/-- A blank does not continue a number, and neither does what ends an item or a member. -/
theorem endsNumber_append {g : List Char} (hg : Gaps g) {c : Char}
    (hc : c = ',' ∨ c = ']' ∨ c = '\x7d') (r : List Char) : EndsNumber (g ++ c :: r) := by
  intro d hd
  cases g with
  | nil =>
    obtain rfl : c = d := by simpa using hd
    rcases hc with rfl | rfl | rfl <;> decide
  | cons x g =>
    obtain rfl : x = d := by simpa using hd
    have hgap : isGap x = true := hg x List.mem_cons_self
    simp only [isGap, Bool.or_eq_true, beq_iff_eq] at hgap
    rcases hgap with ((rfl | rfl) | rfl) | rfl <;> decide

/-! ## Spellings -/

mutual
/-- The text spells the document, with no blanks around it; the compact and the indented text are
two ways to do so. -/
inductive Spells : Json → List Char → Prop
  | null : Spells null "null".toList
  | bool (b : Bool) : Spells (bool b) (if b then "true" else "false").toList
  | int {n : Int} : IsWord n → Spells (int n) (Chars.intDigits n)
  | string (s : String) : Spells (string s) (quote s)
  | emptyArray {g : List Char} : Gaps g → Spells (array []) ('[' :: (g ++ [']']))
  | array {g t : List Char} {items : List Json} :
      Gaps g → SpellsItems items t → Spells (array items) ('[' :: (g ++ (t ++ [']'])))
  | emptyObject {g : List Char} : Gaps g → Spells (object []) ('\x7b' :: (g ++ ['\x7d']))
  | object {g t : List Char} {members : List (String × Json)} :
      Gaps g → SpellsMembers members t →
      Spells (object members) ('\x7b' :: (g ++ (t ++ ['\x7d'])))

/-- The text spells the items, one or more, from the first one on. -/
inductive SpellsItems : List Json → List Char → Prop
  | last {v : Json} {t g : List Char} : Spells v t → Gaps g → SpellsItems [v] (t ++ g)
  | more {v : Json} {t g g' u : List Char} {r : List Json} :
      Spells v t → Gaps g → Gaps g' → SpellsItems r u →
      SpellsItems (v :: r) (t ++ (g ++ ',' :: (g' ++ u)))

/-- The text spells the members, one or more, from the first key on. -/
inductive SpellsMembers : List (String × Json) → List Char → Prop
  | last {k : String} {v : Json} {g₁ g₂ t g : List Char} :
      Gaps g₁ → Gaps g₂ → Spells v t → Gaps g →
      SpellsMembers [(k, v)] (quote k ++ (g₁ ++ ':' :: (g₂ ++ (t ++ g))))
  | more {k : String} {v : Json} {g₁ g₂ t g g' u : List Char} {r : List (String × Json)} :
      Gaps g₁ → Gaps g₂ → Spells v t → Gaps g → Gaps g' → SpellsMembers r u →
      SpellsMembers ((k, v) :: r)
        (quote k ++ (g₁ ++ ':' :: (g₂ ++ (t ++ (g ++ ',' :: (g' ++ u))))))
end

/-! ## The first character -/

/-- The character begins a value. -/
def OpensValue (c : Char) : Prop :=
  c = 'n' ∨ c = 't' ∨ c = 'f' ∨ c = '"' ∨ c = '-' ∨ Chars.isDigit c = true ∨ c = '[' ∨ c = '\x7b'

/-- What begins a value is no blank and does not end an array. -/
theorem OpensValue.not_gap {c : Char} (h : OpensValue c) : isGap c = false ∧ c ≠ ']' := by
  rcases h with rfl | rfl | rfl | rfl | rfl | h | rfl | rfl
  case inr.inr.inr.inr.inr.inl =>
    constructor
    · rw [Bool.eq_false_iff]
      intro hgap
      simp only [isGap, Bool.or_eq_true, beq_iff_eq] at hgap
      rcases hgap with ((rfl | rfl) | rfl) | rfl <;> cases h
    · rintro rfl
      cases h
  all_goals decide

theorem exists_digits_eq_cons (n : Nat) :
    ∃ c r, Chars.digits n = c :: r ∧ Chars.isDigit c = true := by
  cases hdigits : Chars.digits n with
  | nil => exact absurd hdigits (Chars.digits_ne_nil n)
  | cons c r =>
    have hmem : c ∈ Chars.digits n := hdigits ▸ List.mem_cons_self
    exact ⟨c, r, rfl, Chars.isDigit_of_mem_digits n c hmem⟩

theorem Spells.exists_opens {v : Json} {t : List Char} (h : Spells v t) :
    ∃ c r, t = c :: r ∧ OpensValue c := by
  cases h with
  | null => exact ⟨'n', _, rfl, Or.inl rfl⟩
  | bool b =>
    cases b with
    | true => exact ⟨'t', _, rfl, by simp [OpensValue]⟩
    | false => exact ⟨'f', _, rfl, by simp [OpensValue]⟩
  | @int n hn =>
    unfold Chars.intDigits
    split
    · exact ⟨'-', _, rfl, by simp [OpensValue]⟩
    · obtain ⟨c, r, hdigits, hc⟩ := exists_digits_eq_cons n.natAbs
      exact ⟨c, r, hdigits, by simp [OpensValue, hc]⟩
  | string s => exact ⟨'"', _, rfl, by simp [OpensValue]⟩
  | emptyArray _ => exact ⟨'[', _, rfl, by simp [OpensValue]⟩
  | array _ _ => exact ⟨'[', _, rfl, by simp [OpensValue]⟩
  | emptyObject _ => exact ⟨'\x7b', _, rfl, by simp [OpensValue]⟩
  | object _ _ => exact ⟨'\x7b', _, rfl, by simp [OpensValue]⟩

theorem SpellsItems.exists_opens {l : List Json} {t : List Char} (h : SpellsItems l t) :
    ∃ c r, t = c :: r ∧ OpensValue c := by
  cases h with
  | last hv _ =>
    obtain ⟨c, r, rfl, hc⟩ := hv.exists_opens
    exact ⟨c, _, rfl, hc⟩
  | more hv _ _ _ =>
    obtain ⟨c, r, rfl, hc⟩ := hv.exists_opens
    exact ⟨c, _, rfl, hc⟩

theorem SpellsMembers.exists_quote {l : List (String × Json)} {t : List Char}
    (h : SpellsMembers l t) : ∃ r, t = '"' :: r := by
  cases h with
  | last _ _ _ _ => exact ⟨_, rfl⟩
  | more _ _ _ _ _ _ => exact ⟨_, rfl⟩

/-! ## Reading scalars -/

section Scalars

variable {fuel depth : Nat} {g rest : List Char}

theorem readValue_null (hg : Gaps g) :
    readValue (fuel + 1) depth (g ++ ("null".toList ++ rest)) = .ok (null, rest) := by
  have hskip : skipGaps (g ++ ("null".toList ++ rest)) = "null".toList ++ rest :=
    skipGaps_append hg (c := 'n') (by decide) _
  rw [readValue, hskip]
  simp [readWord]

theorem readValue_bool (hg : Gaps g) (b : Bool) :
    readValue (fuel + 1) depth (g ++ ((if b then "true" else "false").toList ++ rest)) =
      .ok (bool b, rest) := by
  cases b with
  | true =>
    have hskip : skipGaps (g ++ ("true".toList ++ rest)) = "true".toList ++ rest :=
      skipGaps_append hg (c := 't') (by decide) _
    simp only [if_true]
    rw [readValue, hskip]
    simp [readWord]
  | false =>
    have hskip : skipGaps (g ++ ("false".toList ++ rest)) = "false".toList ++ rest :=
      skipGaps_append hg (c := 'f') (by decide) _
    simp only [Bool.false_eq_true, if_false]
    rw [readValue, hskip]
    simp [readWord]

theorem readValue_int (hg : Gaps g) {n : Int} (hn : IsWord n) (hrest : EndsNumber rest) :
    readValue (fuel + 1) depth (g ++ (Chars.intDigits n ++ rest)) = .ok (int n, rest) := by
  unfold Chars.intDigits
  split
  · next hneg =>
    have hnumber : readNumber true (Chars.digits n.natAbs ++ rest) = .ok (int n, rest) :=
      readNumber_digits (by rw [if_pos rfl]; omega) hn (fun _ => by omega) hrest
    have hskip := skipGaps_append hg (c := '-') (by decide) (Chars.digits n.natAbs ++ rest)
    rw [List.cons_append, readValue, hskip]
    simpa using hnumber
  · next hpos =>
    have hnumber : readNumber false (Chars.digits n.natAbs ++ rest) = .ok (int n, rest) :=
      readNumber_digits (by rw [if_neg Bool.false_ne_true]; omega) hn
        (fun h => absurd h Bool.false_ne_true) hrest
    obtain ⟨c, r, hdigits, hc⟩ := exists_digits_eq_cons n.natAbs
    rw [hdigits, List.cons_append] at hnumber ⊢
    have hgap : isGap c = false := (OpensValue.not_gap (by simp [OpensValue, hc])).1
    -- a digit is none of the characters that begin a value of another kind
    have hother : c ≠ 'n' ∧ c ≠ 't' ∧ c ≠ 'f' ∧ c ≠ '"' ∧ c ≠ '-' := by
      refine ⟨?_, ?_, ?_, ?_, ?_⟩ <;> (rintro rfl; cases hc)
    obtain ⟨hnull, htrue, hfalse, hquote, hminus⟩ := hother
    rw [readValue, skipGaps_append hg hgap]
    simp only [hnull, htrue, hfalse, hquote, hminus, hc, if_false, if_true]
    exact hnumber

theorem readValue_string (hg : Gaps g) (s : String) :
    readValue (fuel + 1) depth (g ++ (quote s ++ rest)) = .ok (string s, rest) := by
  have hskip := skipGaps_append hg (c := '"') (by decide) (escape s.toList ++ '"' :: rest)
  have htext : quote s ++ rest = '"' :: (escape s.toList ++ '"' :: rest) := by simp [quote]
  rw [htext, readValue, hskip]
  simp [readString_escape]

end Scalars

/-! ## Reading values -/

section Values

variable {fuel d : Nat} {rest : List Char}

/-- An array is read from behind its bracket. -/
theorem readValue_array {g t : List Char} {items : List Json} (hg : Gaps g)
    (h : readFirstItem fuel d (t ++ rest) = .ok (items, rest)) :
    readValue (fuel + 1) (d + 1) (g ++ ('[' :: t ++ rest)) = .ok (array items, rest) := by
  rw [List.cons_append, readValue, skipGaps_append hg (by decide)]
  simp [Chars.isDigit, h]

/-- An object is read from behind its brace. -/
theorem readValue_object {g t : List Char} {members : List (String × Json)} (hg : Gaps g)
    (h : readFirstMember fuel d (t ++ rest) = .ok (members, rest)) :
    readValue (fuel + 1) (d + 1) (g ++ ('\x7b' :: t ++ rest)) = .ok (object members, rest) := by
  rw [List.cons_append, readValue, skipGaps_append hg (by decide)]
  simp [Chars.isDigit, h]

theorem readFirstItem_empty {g : List Char} (hg : Gaps g) :
    readFirstItem (fuel + 1) d (g ++ [']'] ++ rest) = .ok ([], rest) := by
  rw [List.append_assoc, List.singleton_append, readFirstItem, skipGaps_append hg (by decide)]
  simp

theorem readFirstMember_empty {g : List Char} (hg : Gaps g) :
    readFirstMember (fuel + 1) d (g ++ ['\x7d'] ++ rest) = .ok ([], rest) := by
  rw [List.append_assoc, List.singleton_append, readFirstMember, skipGaps_append hg (by decide)]
  simp

/-- Behind the bracket, and the blanks that follow it, stand the items. -/
theorem readFirstItem_items {g t : List Char} {l : List Json} (hg : Gaps g)
    (ht : ∃ c r, t = c :: r ∧ OpensValue c)
    (h : readItem fuel d (t ++ ']' :: rest) = .ok (l, rest)) :
    readFirstItem (fuel + 1) d (g ++ (t ++ [']']) ++ rest) = .ok (l, rest) := by
  obtain ⟨c, r, rfl, hc⟩ := ht
  obtain ⟨hgap, hend⟩ := hc.not_gap
  have htext : g ++ (c :: r ++ [']']) ++ rest = g ++ c :: (r ++ ']' :: rest) := by simp
  rw [htext, readFirstItem, skipGaps_append hg hgap]
  simpa [hend] using h

theorem readFirstMember_members {g t : List Char} {l : List (String × Json)} (hg : Gaps g)
    (h : readMember fuel d (t ++ '\x7d' :: rest) = .ok (l, rest)) :
    readFirstMember (fuel + 1) d (g ++ ('"' :: t ++ ['\x7d']) ++ rest) = .ok (l, rest) := by
  have htext : g ++ ('"' :: t ++ ['\x7d']) ++ rest = g ++ '"' :: (t ++ '\x7d' :: rest) := by simp
  rw [htext, readFirstMember, skipGaps_append hg (by decide)]
  simpa using h

/-- Behind an item stands the end of the array. -/
theorem readMoreItems_end {g : List Char} (hg : Gaps g) :
    readMoreItems (fuel + 1) d (g ++ ']' :: rest) = .ok ([], rest) := by
  rw [readMoreItems, skipGaps_append hg (by decide)]
  simp

/-- Behind an item stands a comma, and then the items that are left. -/
theorem readMoreItems_comma {g g' t s : List Char} {l : List Json} (hg : Gaps g) (hg' : Gaps g')
    (ht : ∃ c r, t = c :: r ∧ OpensValue c)
    (h : readItem fuel d (t ++ s) = .ok (l, rest)) :
    readMoreItems (fuel + 1) d (g ++ ',' :: (g' ++ (t ++ s))) = .ok (l, rest) := by
  obtain ⟨c, r, rfl, hc⟩ := ht
  obtain ⟨hgap, hend⟩ := hc.not_gap
  rw [readMoreItems, skipGaps_append hg (by decide), List.cons_append]
  simp only [skipGaps_append hg' hgap]
  simpa [hend] using h

theorem readMoreMembers_end {g : List Char} (hg : Gaps g) :
    readMoreMembers (fuel + 1) d (g ++ '\x7d' :: rest) = .ok ([], rest) := by
  rw [readMoreMembers, skipGaps_append hg (by decide)]
  simp

theorem readMoreMembers_comma {g g' s : List Char} {l : List (String × Json)} (hg : Gaps g)
    (hg' : Gaps g') (h : readMember fuel d s = .ok (l, rest)) :
    readMoreMembers (fuel + 1) d (g ++ ',' :: (g' ++ '"' :: s)) = .ok (l, rest) := by
  rw [readMoreMembers, skipGaps_append hg (by decide)]
  simp only [skipGaps_append hg' (c := '"') (by decide)]
  simpa using h

/-- An item is a value and what stands behind it. -/
theorem readItem_value {v : Json} {s after : List Char} {l : List Json}
    (hv : readValue fuel d s = .ok (v, after))
    (hmore : readMoreItems fuel d after = .ok (l, rest)) :
    readItem (fuel + 1) d s = .ok (v :: l, rest) := by
  simp [readItem, hv, hmore]

/-- A member is a key, a colon, a value and what stands behind it. -/
theorem readMember_value {k : String} {v : Json} {g s after : List Char}
    {l : List (String × Json)} (hg : Gaps g) (hv : readValue fuel d s = .ok (v, after))
    (hmore : readMoreMembers fuel d after = .ok (l, rest)) :
    readMember (fuel + 1) d (escape k.toList ++ '"' :: (g ++ ':' :: s)) =
      .ok ((k, v) :: l, rest) := by
  have hcolon : skipGaps (g ++ ':' :: s) = ':' :: s := skipGaps_append hg (by decide) s
  simp [readMember, readString_escape, hcolon, hv, hmore]

end Values

/-! ## Reading what spells a document -/

mutual
/-- **A text that spells a document is read as that document** by `readValue`, and reading stops
behind it.  Three units of fuel for each character are enough, since no call reads nothing more
than twice in a row. -/
theorem readValue_of_spells : ∀ {v : Json} {t : List Char}, Spells v t →
    ∀ {fuel d : Nat} {g rest : List Char}, Gaps g → 3 * t.length ≤ fuel → v.depth ≤ d →
      EndsNumber rest → readValue fuel d (g ++ (t ++ rest)) = .ok (v, rest)
  | v, t, h, fuel, d, g, rest, hg, hfuel, hdepth, hrest => by
    obtain ⟨c, r, ht, -⟩ := h.exists_opens
    -- every text has a character, so there is fuel for this call
    obtain ⟨fuel, rfl⟩ : ∃ n, fuel = n + 1 := by
      rw [ht, List.length_cons] at hfuel
      exact ⟨fuel - 1, by omega⟩
    cases h with
    | null => exact readValue_null hg
    | bool b => exact readValue_bool hg b
    | int hn => exact readValue_int hg hn hrest
    | string s => exact readValue_string hg s
    | emptyArray hg' =>
      obtain ⟨d, rfl⟩ : ∃ n, d = n + 1 := ⟨d - 1, by simp only [depth] at hdepth; omega⟩
      obtain ⟨fuel, rfl⟩ : ∃ n, fuel = n + 1 := ⟨fuel - 1, by simp at hfuel; omega⟩
      exact readValue_array hg (readFirstItem_empty hg')
    | emptyObject hg' =>
      obtain ⟨d, rfl⟩ : ∃ n, d = n + 1 := ⟨d - 1, by simp only [depth] at hdepth; omega⟩
      obtain ⟨fuel, rfl⟩ : ∃ n, fuel = n + 1 := ⟨fuel - 1, by simp at hfuel; omega⟩
      exact readValue_object hg (readFirstMember_empty hg')
    -- the bracket pays for the call of the items, which end at the other bracket
    | @array g' u items hg' hitems =>
      simp only [depth] at hdepth
      simp only [List.length_cons, List.length_append] at hfuel
      obtain ⟨d, rfl⟩ : ∃ n, d = n + 1 := ⟨d - 1, by omega⟩
      obtain ⟨fuel, rfl⟩ : ∃ n, fuel = n + 1 := ⟨fuel - 1, by omega⟩
      have hread : readItem fuel d (u ++ ']' :: rest) = .ok (items, rest) :=
        readItem_of_spells hitems (by omega) (by omega)
      exact readValue_array hg (readFirstItem_items hg' hitems.exists_opens hread)
    | @object g' u members hg' hmembers =>
      simp only [depth] at hdepth
      simp only [List.length_cons, List.length_append] at hfuel
      obtain ⟨d, rfl⟩ : ∃ n, d = n + 1 := ⟨d - 1, by omega⟩
      obtain ⟨fuel, rfl⟩ : ∃ n, fuel = n + 1 := ⟨fuel - 1, by omega⟩
      obtain ⟨u, rfl⟩ := hmembers.exists_quote
      simp only [List.length_cons] at hfuel
      have hread : readMember fuel d (u ++ '\x7d' :: rest) = .ok (members, rest) :=
        readMember_of_spells hmembers (by omega) (by omega)
      exact readValue_object hg (readFirstMember_members hg' hread)

/-- Items are read up to the bracket that ends them. -/
theorem readItem_of_spells : ∀ {l : List Json} {t : List Char}, SpellsItems l t →
    ∀ {fuel d : Nat} {rest : List Char}, 3 * t.length + 2 ≤ fuel → itemsDepth l ≤ d →
      readItem fuel d (t ++ ']' :: rest) = .ok (l, rest)
  | _, _, @SpellsItems.last v t g hv hg, fuel, d, rest, hfuel, hdepth => by
    simp only [List.length_append] at hfuel
    simp only [itemsDepth] at hdepth
    obtain ⟨fuel, rfl⟩ : ∃ n, fuel = n + 2 := ⟨fuel - 2, by omega⟩
    have hends : EndsNumber (g ++ ']' :: rest) := endsNumber_append hg (by simp) rest
    have hvalue : readValue (fuel + 1) d ([] ++ (t ++ (g ++ ']' :: rest))) =
        .ok (v, g ++ ']' :: rest) :=
      readValue_of_spells hv gaps_nil (by omega) (by omega) hends
    rw [List.append_assoc]
    exact readItem_value hvalue (readMoreItems_end hg)
  | _, _, @SpellsItems.more v t g g' u r hv hg hg' hr, fuel, d, rest, hfuel, hdepth => by
    simp only [List.length_append, List.length_cons] at hfuel
    simp only [itemsDepth] at hdepth
    obtain ⟨fuel, rfl⟩ : ∃ n, fuel = n + 2 := ⟨fuel - 2, by omega⟩
    have hends : EndsNumber (g ++ ',' :: (g' ++ (u ++ ']' :: rest))) :=
      endsNumber_append hg (by simp) _
    have hvalue : readValue (fuel + 1) d
        ([] ++ (t ++ (g ++ ',' :: (g' ++ (u ++ ']' :: rest))))) =
          .ok (v, g ++ ',' :: (g' ++ (u ++ ']' :: rest))) :=
      readValue_of_spells hv gaps_nil (by omega) (by omega) hends
    have hread : readItem fuel d (u ++ ']' :: rest) = .ok (r, rest) :=
      readItem_of_spells hr (by omega) (by omega)
    have hmore := readMoreItems_comma hg hg' hr.exists_opens hread
    simpa using readItem_value hvalue hmore

/-- Members are read from behind the quote of the first key, up to the brace that ends them. -/
theorem readMember_of_spells : ∀ {l : List (String × Json)} {t : List Char},
    SpellsMembers l ('"' :: t) →
    ∀ {fuel d : Nat} {rest : List Char}, 3 * t.length + 2 ≤ fuel → membersDepth l ≤ d →
      readMember fuel d (t ++ '\x7d' :: rest) = .ok (l, rest)
  | _, t, h, fuel, d, rest, hfuel, hdepth => by
    -- the relation is about texts with the quote, and reading begins behind it
    generalize hs : '"' :: t = s at h
    cases h with
    | @last k v g₁ g₂ u g hg₁ hg₂ hv hg =>
      obtain rfl : t = escape k.toList ++ '"' :: (g₁ ++ ':' :: (g₂ ++ (u ++ g))) := by
        simpa [quote] using hs
      simp only [List.length_append, List.length_cons] at hfuel
      simp only [membersDepth] at hdepth
      obtain ⟨fuel, rfl⟩ : ∃ n, fuel = n + 2 := ⟨fuel - 2, by omega⟩
      have hends : EndsNumber (g ++ '\x7d' :: rest) := endsNumber_append hg (by simp) rest
      have hvalue : readValue (fuel + 1) d (g₂ ++ (u ++ (g ++ '\x7d' :: rest))) =
          .ok (v, g ++ '\x7d' :: rest) :=
        readValue_of_spells hv hg₂ (by omega) (by omega) hends
      simpa using readMember_value (k := k) hg₁ hvalue (readMoreMembers_end hg)
    | @more k v g₁ g₂ u g g' w r hg₁ hg₂ hv hg hg' hr =>
      obtain rfl : t = escape k.toList ++
          '"' :: (g₁ ++ ':' :: (g₂ ++ (u ++ (g ++ ',' :: (g' ++ w))))) := by
        simpa [quote] using hs
      obtain ⟨w, rfl⟩ := hr.exists_quote
      simp only [List.length_append, List.length_cons] at hfuel
      simp only [membersDepth] at hdepth
      obtain ⟨fuel, rfl⟩ : ∃ n, fuel = n + 2 := ⟨fuel - 2, by omega⟩
      have hends : EndsNumber (g ++ ',' :: (g' ++ '"' :: (w ++ '\x7d' :: rest))) :=
        endsNumber_append hg (by simp) _
      have hvalue : readValue (fuel + 1) d
          (g₂ ++ (u ++ (g ++ ',' :: (g' ++ '"' :: (w ++ '\x7d' :: rest))))) =
            .ok (v, g ++ ',' :: (g' ++ '"' :: (w ++ '\x7d' :: rest))) :=
        readValue_of_spells hv hg₂ (by omega) (by omega) hends
      have hread : readMember fuel d (w ++ '\x7d' :: rest) = .ok (r, rest) :=
        readMember_of_spells hr (by omega) (by omega)
      simpa using readMember_value (k := k) hg₁ hvalue (readMoreMembers_comma hg hg' hread)
end

/-- A whole text that spells a document, with blanks around it, holds that document. -/
theorem readWhole_of_spells {v : Json} {t g g' : List Char} (h : Spells v t)
    (hdepth : v.depth ≤ maxDepth) (hg : Gaps g) (hg' : Gaps g') :
    readWhole (g ++ (t ++ g')) = .ok v := by
  have hends : EndsNumber g' := by
    intro c hc
    have hgap : isGap c = true := hg' c (List.mem_of_mem_head? hc)
    simp only [isGap, Bool.or_eq_true, beq_iff_eq] at hgap
    rcases hgap with ((rfl | rfl) | rfl) | rfl <;> decide
  have hfuel : 3 * t.length ≤ 3 * (g ++ (t ++ g')).length + 3 := by
    simp only [List.length_append]
    omega
  have hskip : skipGaps g' = [] := (Chars.dropWhile_eq_nil_iff isGap g').2 hg'
  rw [readWhole, readValue_of_spells h hg hfuel hdepth hends]
  simp [hskip]

/-! ## The compact text -/

mutual
/-- **The compact text spells the document** (`Spells`), as long as every number in it is an
integer of 64 bits (`isIntegral`). -/
theorem spells_render : ∀ v : Json, v.isIntegral = true → Spells v (render v)
  | .null, _ => .null
  | .bool b, _ => .bool b
  | .int _, h => .int (of_decide_eq_true h)
  | .float _, h => nomatch h
  | .string s, _ => .string s
  | .array [], _ => .emptyArray gaps_nil
  | .array (v :: r), h =>
    .array gaps_nil (spellsItems_renderItems (v :: r) (List.cons_ne_nil v r) h)
  | .object [], _ => .emptyObject gaps_nil
  | .object (e :: r), h =>
    .object gaps_nil (spellsMembers_renderMembers (e :: r) (List.cons_ne_nil e r) h)

theorem spellsItems_renderItems : ∀ l : List Json,
    l ≠ [] → integralItems l = true → SpellsItems l (renderItems l)
  | [], h, _ => absurd rfl h
  | [v], _, h => by
    simp only [integralItems, Bool.and_eq_true] at h
    have hlast := SpellsItems.last (spells_render v h.1) gaps_nil
    rw [List.append_nil] at hlast
    exact hlast
  | v :: w :: r, _, h => by
    rw [integralItems, Bool.and_eq_true] at h
    exact .more (spells_render v h.1) gaps_nil gaps_nil
      (spellsItems_renderItems (w :: r) (List.cons_ne_nil w r) h.2)

theorem spellsMembers_renderMembers : ∀ l : List (String × Json),
    l ≠ [] → integralMembers l = true → SpellsMembers l (renderMembers l)
  | [], h, _ => absurd rfl h
  | [(k, v)], _, h => by
    simp only [integralMembers, Bool.and_eq_true] at h
    have hlast := SpellsMembers.last (k := k) gaps_nil gaps_nil (spells_render v h.1) gaps_nil
    rw [List.append_nil] at hlast
    exact hlast
  | (k, v) :: e :: r, _, h => by
    rw [integralMembers, Bool.and_eq_true] at h
    exact .more gaps_nil gaps_nil (spells_render v h.1) gaps_nil gaps_nil
      (spellsMembers_renderMembers (e :: r) (List.cons_ne_nil e r) h.2)
end

/-- **The compact text of a document is read as that document.** -/
theorem readWhole_render {v : Json} (hintegral : v.isIntegral = true)
    (hdepth : v.depth ≤ maxDepth) : readWhole (render v) = .ok v := by
  have h := readWhole_of_spells (spells_render v hintegral) hdepth gaps_nil gaps_nil
  rwa [List.nil_append, List.append_nil] at h

/-- A compact text holds the document. -/
theorem readDocument_compact {v : Json} (hintegral : v.isIntegral = true)
    (hdepth : v.depth ≤ maxDepth) : readDocument v.compact = .ok v := by
  unfold readDocument compact
  rw [String.toList_ofList, readWhole_render hintegral hdepth]
  rfl

/-- The value that a compact text holds is the document in normal form. -/
theorem parse_compact {v : Json} (hintegral : v.isIntegral = true) (hdepth : v.depth ≤ maxDepth) :
    parse v.compact = .ok v.normalize := by
  rw [parse, readDocument_compact hintegral hdepth]
  rfl

end RestCase.Json
