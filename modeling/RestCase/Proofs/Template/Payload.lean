/-
# RestCase.Proofs.Template.Payload — payloads made of variables

A payload may be an object whose members are placeholders.  The variables stand in it as compact
text, and each placeholder is filled once and not looked at again, so that filling the payload and
writing the object of the values give one and the same text (`interpolate_payloadTemplate`).  That
text is read as the object, whatever the strings inside the values have in them
(`parse_interpolate_payloadTemplate`).

Boundary: a string is the one kind of value for which this fails, since its string form has no
quotes.
-/
import RestCase.Proofs.Json.Normal
import RestCase.Proofs.Json.Spelling
import RestCase.Proofs.Template.Filling
import RestCase.Run.Preparation

namespace RestCase.Template

/-! ## Payload templates -/

/-- A member of a payload: its key, the variable whose placeholder it has, and the value that the
variable is to have; `Slot.member` is what comes of it. -/
structure Slot where
  key : String
  name : String
  value : Json

/-- The member that comes of a slot. -/
def Slot.member (s : Slot) : String × Json := (s.key, s.value)

/-- Members with a placeholder each, and commas between them. -/
def slotTexts : List Slot → List Char
  | [] => []
  | [s] => Json.quote s.key ++ ':' :: placeholder s.name
  | s :: t :: r => Json.quote s.key ++ ':' :: (placeholder s.name ++ ',' :: slotTexts (t :: r))

/-- The compact text of an object, with placeholders in place of the values. -/
def payloadText (slots : List Slot) : List Char := '\x7b' :: (slotTexts slots ++ ['\x7d'])

/-- `payloadText` as a string. -/
def payloadTemplate (slots : List Slot) : String := String.ofList (payloadText slots)

/-- The slot can be filled from the context: the marks of a placeholder do not interfere with its
key and its name, and the variable has the value, which is no string. -/
structure Slot.Fits (ctx : Context) (s : Slot) : Prop where
  key_free : '$' ∉ s.key.toList
  name_free : '\x7d' ∉ s.name.toList
  get_eq : ctx.get? s.name = some s.value
  not_string : ∀ text, s.value ≠ .string text

/-- The value is one that a payload keeps: a normal document without binary64 numbers, nested less
deep than a text may be. -/
structure Slot.Keeps (s : Slot) : Prop where
  normal : s.value.Normal
  integral : s.value.isIntegral = true
  depth_lt : s.value.depth < Json.maxDepth

/-! ## Filling -/

/-- The string form of a value that is no string is its compact text. -/
theorem stringForm_eq_compact {v : Json} (h : ∀ text, v ≠ .string text) :
    v.stringForm = v.compact := by
  cases v with
  | string s => exact absurd rfl (h s)
  | null | bool | int | float | array | object => rfl

theorem dollar_not_mem_escapeChar {c : Char} (h : c ≠ '$') : '$' ∉ Json.escapeChar c := by
  have hhex : ∀ d < 16, '$' ≠ Json.hexChar d := by decide
  unfold Json.escapeChar
  split
  · decide
  split
  · decide
  split
  · simpa using Ne.symm h
  split
  · decide
  split
  · decide
  split
  · decide
  split
  · decide
  split
  · decide
  · next hcontrol _ _ _ _ _ =>
    -- the only characters that are written with hexadecimal digits
    have hhigh : '$' ≠ Json.hexChar (c.toNat / 16) := hhex _ (by omega)
    have hlow : '$' ≠ Json.hexChar (c.toNat % 16) := hhex _ (by omega)
    simp [hhigh, hlow]

/-- Quoting brings no dollar sign in. -/
theorem dollar_not_mem_quote {s : String} (h : '$' ∉ s.toList) : '$' ∉ Json.quote s := by
  have hescape : ∀ l : List Char, '$' ∉ l → '$' ∉ Json.escape l := by
    intro l
    induction l with
    | nil => intro _; exact List.not_mem_nil
    | cons c r ih =>
      intro hl
      obtain ⟨hc, hr⟩ := List.ne_and_not_mem_of_not_mem_cons hl
      rw [Json.escape, List.mem_append, not_or]
      exact ⟨dollar_not_mem_escapeChar (Ne.symm hc), ih hr⟩
  simp [Json.quote, hescape s.toList h]

/-- The placeholder of a slot that fits is filled with the compact text of its value. -/
theorem Slot.Fits.valueIn_eq {ctx : Context} {s : Slot} (h : s.Fits ctx) :
    valueIn ctx s.name.toList = some s.value.render := by
  show ((ctx.get? (String.ofList s.name.toList)).map Json.stringForm).map String.toList = _
  rw [String.ofList_toList, h.get_eq, Option.map_some, stringForm_eq_compact h.not_string]
  simp [Json.compact]

/-- **Filling the members one by one writes the members of the object** (`slotTexts`,
`Slot.member`).  The text in front of them has no dollar sign, and none of them brings one in that
is looked at. -/
theorem fill_slotTexts {ctx : Context} {slots : List Slot} (h : ∀ s ∈ slots, s.Fits ctx)
    (before : List Char) (hbefore : '$' ∉ before) :
    (fill variableMarks (valueIn ctx) (before ++ (slotTexts slots ++ ['\x7d']))).text =
      before ++ (Json.renderMembers (slots.map Slot.member) ++ ['\x7d']) := by
  induction slots generalizing before with
  | nil =>
    have hend : '$' ∉ before ++ ['\x7d'] := by simp [hbefore]
    show (fill variableMarks (valueIn ctx) (before ++ ['\x7d'])).text = before ++ ['\x7d']
    rw [fill_of_no_opening (Chars.splitFirst?_eq_none ['\x7b'] hend)]
  | cons s r ih =>
    have hs : s.Fits ctx := h s List.mem_cons_self
    have hfront : '$' ∉ before ++ (Json.quote s.key ++ [':']) := by
      simp [hbefore, dollar_not_mem_quote hs.key_free]
    have hplace := fill_placeholder hfront hs.name_free hs.valueIn_eq
    cases r with
    | nil =>
      have hend : fill variableMarks (valueIn ctx) ['\x7d'] = ⟨['\x7d'], []⟩ :=
        fill_of_no_opening (Chars.splitFirst?_eq_none ['\x7b'] (by decide))
      have htext := hplace ['\x7d']
      rw [hend] at htext
      simpa [slotTexts, placeholder, Slot.member, Json.renderMembers] using htext
    | cons t r =>
      -- the comma is all that stands between this placeholder and the next member
      have hrest := ih (fun x hx => h x (List.mem_cons_of_mem s hx)) [','] (by decide)
      have htext := hplace ([','] ++ (slotTexts (t :: r) ++ ['\x7d']))
      rw [hrest] at htext
      simpa [slotTexts, placeholder, Slot.member, Json.renderMembers] using htext

/-- **A filled payload is the compact text of the object** that its values make (`Slot.member`). -/
theorem interpolate_payloadTemplate {ctx : Context} {slots : List Slot}
    (h : ∀ s ∈ slots, s.Fits ctx) :
    interpolate ctx (payloadTemplate slots) =
      (Json.object (slots.map Slot.member)).compact := by
  have hfill := fill_slotTexts h ['\x7b'] (by decide)
  unfold interpolate interpolation payloadTemplate payloadText
  rw [String.toList_ofList]
  exact congrArg String.ofList hfill

/-! ## Reading the filled payload -/

/-- An object of values that a payload keeps is read from its compact text. -/
theorem parse_compact_object {slots : List Slot} (h : ∀ s ∈ slots, s.Keeps) :
    Json.parse (Json.object (slots.map Slot.member)).compact =
      .ok (Json.ofTable (Table.ofList (slots.map Slot.member))) := by
  have hnormal : Json.NormalMembers (slots.map Slot.member) := by
    rw [Json.normalMembers_iff]
    intro e he
    obtain ⟨s, hs, rfl⟩ := List.mem_map.1 he
    exact (h s hs).normal
  have hintegral : (Json.object (slots.map Slot.member)).isIntegral = true := by
    rw [Json.isIntegral, Json.integralMembers_iff]
    intro e he
    obtain ⟨s, hs, rfl⟩ := List.mem_map.1 he
    exact (h s hs).integral
  have hdepth : (Json.object (slots.map Slot.member)).depth ≤ Json.maxDepth := by
    rw [Json.depth, Nat.succ_le_iff, Json.membersDepth_lt_iff (by decide)]
    intro e he
    obtain ⟨s, hs, rfl⟩ := List.mem_map.1 he
    exact (h s hs).depth_lt
  rw [Json.parse_compact hintegral hdepth, Json.normalize_object hnormal]

/-- **Variables survive the way through a payload.**  Where the keys of a payload
(`payloadTemplate`) differ and every variable in it has a value that is no string (`Slot.Fits`,
`Slot.Keeps`), the payload is filled with a text that template variables leave alone, that a
request sends as its body (`bodyOf`), and that is read as the object which has each value under
its key and nothing else. -/
theorem parse_interpolate_payloadTemplate {ctx : Context} {slots : List Slot}
    (hkeys : (slots.map Slot.key).Nodup) (hfits : ∀ s ∈ slots, s.Fits ctx)
    (hkeeps : ∀ s ∈ slots, s.Keeps) :
    ∃ (body : String) (found : Json),
      interpolate ctx (payloadTemplate slots) = body ∧ applyVariables [] body = body ∧
      (∀ r : RequestSpec, r.method.allowsBody = true →
        r.payload = some (payloadTemplate slots) → r.templateVariables = [] →
        r.bodyOf ctx = some body) ∧
      Json.parse body = .ok found ∧
      found = Json.ofTable (Table.ofList (slots.map Slot.member)) ∧
      (∀ s ∈ slots, found.member? s.key = some s.value) ∧
      ∀ key, (∀ s ∈ slots, s.key ≠ key) → found.member? key = none := by
  have hnodup : ((slots.map Slot.member).map Prod.fst).Nodup := by
    rw [List.map_map]
    exact hkeys
  -- as the keys differ, a key has the value of its slot
  have hmember : ∀ key, (Json.ofTable (Table.ofList (slots.map Slot.member))).member? key =
      Table.lookup key (slots.map Slot.member) := fun key => Table.find?_ofList hnodup key
  refine ⟨_, _, interpolate_payloadTemplate hfits, rfl, ?_, parse_compact_object hkeeps, rfl,
    ?_, ?_⟩
  · intro r hmethod hpayload hvariables
    unfold RequestSpec.bodyOf
    rw [if_pos hmethod, hpayload, hvariables, Option.map_some, interpolate_payloadTemplate hfits]
    rfl
  · intro s hs
    rw [hmember, Table.lookup_eq_some_iff hnodup]
    exact List.mem_map_of_mem hs
  · intro key hkey
    rw [hmember, Table.lookup_eq_none_iff, List.map_map]
    intro hmem
    obtain ⟨s, hs, rfl⟩ := List.mem_map.1 hmem
    exact hkey s hs rfl

namespace HostilePayload

/-- Slots whose keys, names and values have quotes, marks of placeholders and control characters in
them, and the least and the greatest integer. -/
def slots : List Slot :=
  [⟨"say \"hi\"", "a b", .array [.string "$\x7bn\x7d\"\x07\\", .int (-0x8000000000000000)]⟩,
    ⟨"", "$\x7bn", .object [("k\n", .null), ("l", .array [.bool true, .object []])]⟩,
    ⟨"\x7dn", "n", .int 0xFFFFFFFFFFFFFFFF⟩]

/-- The context in which the variables have their values. -/
def context : Context := slots.foldl (fun ctx s => ctx.set s.name s.value none) .empty

end HostilePayload

/-- A payload with hostile keys, names and values is read as the object of the values. -/
theorem parse_interpolate_payloadTemplate_hostile :
    (HostilePayload.slots.map Slot.key).Nodup ∧
      (∀ s ∈ HostilePayload.slots, s.Fits HostilePayload.context) ∧
      (∀ s ∈ HostilePayload.slots, s.Keeps) ∧
      ∃ (body : String) (found : Json),
        interpolate HostilePayload.context (payloadTemplate HostilePayload.slots) = body ∧
        Json.parse body = .ok found ∧
        (∀ s ∈ HostilePayload.slots, found.member? s.key = some s.value) ∧
        found.member? "n" = none := by
  have hkeys : (HostilePayload.slots.map Slot.key).Nodup := by decide
  have hfits : ∀ s ∈ HostilePayload.slots, s.Fits HostilePayload.context := by
    intro s hs
    simp only [HostilePayload.slots, List.mem_cons, List.not_mem_nil, or_false] at hs
    rcases hs with rfl | rfl | rfl
    · exact ⟨by decide, by decide, by simp [HostilePayload.context, HostilePayload.slots], nofun⟩
    · exact ⟨by decide, by decide, by simp [HostilePayload.context, HostilePayload.slots], nofun⟩
    · exact ⟨by decide, by decide, by simp [HostilePayload.context, HostilePayload.slots], nofun⟩
  have hkeeps : ∀ s ∈ HostilePayload.slots, s.Keeps := by
    intro s hs
    simp only [HostilePayload.slots, List.mem_cons, List.not_mem_nil, or_false] at hs
    rcases hs with rfl | rfl | rfl
    · exact ⟨.array (.cons (.string _) (.cons (.int _) .nil)), by decide, by decide⟩
    · refine ⟨.object (by decide) (.cons .null (.cons (.array ?_) .nil)), by decide, by decide⟩
      exact .cons (.bool true) (.cons (.object .nil .nil) .nil)
    · exact ⟨.int _, by decide, by decide⟩
  obtain ⟨body, found, hbody, -, -, hparse, -, hvalues, hothers⟩ :=
    parse_interpolate_payloadTemplate hkeys hfits hkeeps
  exact ⟨hkeys, hfits, hkeeps, body, found, hbody, hparse, hvalues, hothers "n" (by decide)⟩

end RestCase.Template
