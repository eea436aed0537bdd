/-
# RestCase.Proofs.Template.Idempotence — filling a filled text

A value comes to stand between literal text on either side, and at such a seam a new placeholder
could open: a dollar sign before a value that begins with a brace, or before an empty value with a
brace behind it, or a dollar sign at the end of a value.  `Plain` excludes these.  Then nothing
opens in front of the next piece whatever was put in before it (`Sealed`), so the placeholders of a
filled text are exactly those that had no value (`holes_append_fill`), and they have none the second
time either (`interpolation_interpolate`).

An opening that is never closed stays unclosed, since the values stand in front of it: a value may
have closing braces.
-/
import RestCase.Proofs.Template.Splitting

namespace RestCase.Template

open Chars (splitFirst?_eq_some_iff splitFirst?_eq_none_iff)

/-- A value that neither opens a placeholder nor makes its neighbours open one: a text that is
`Sealed` stays so behind it. -/
structure Plain (value : List Char) : Prop where
  ne_nil : value ≠ []
  no_dollar : '$' ∉ value
  no_brace : value.head? ≠ some '\x7b'

/-- A text in which no placeholder opens, and that leaves none half open at its end: behind it
`Chars.splitFirst?` finds the mark that it would find without it. -/
structure Sealed (front : List Char) : Prop where
  no_opening : ¬ variableMarks.opening <:+: front
  no_dollar : front.getLast? ≠ some '$'

theorem sealed_nil : Sealed [] := ⟨by decide, by decide⟩

section Seams

variable {front before value rest : List Char}

/-- Behind a sealed text, placeholders open where they would without it. -/
theorem Sealed.splitFirst? (hfront : Sealed front) (rest : List Char) :
    Chars.splitFirst? variableMarks.opening (front ++ rest) =
      (Chars.splitFirst? variableMarks.opening rest).map fun (a, b) => (front ++ a, b) := by
  induction front with
  | nil => simp
  | cons c r ih =>
    have hr : Sealed r := by
      refine ⟨fun h => hfront.no_opening (List.infix_cons h), fun h => hfront.no_dollar ?_⟩
      rw [List.getLast?_cons, h]
      rfl
    -- an opening at `c` would lie in the sealed text, or begin with the dollar sign at its end
    have hmiss : variableMarks.opening.isPrefixOf (c :: (r ++ rest)) = false := by
      rw [Bool.eq_false_iff, Ne, List.isPrefixOf_iff_prefix]
      rintro ⟨tail, htail⟩
      obtain ⟨rfl, hbrace⟩ := List.cons.inj htail
      cases r with
      | nil => exact hfront.no_dollar rfl
      | cons d r =>
        obtain ⟨rfl, -⟩ := List.cons.inj hbrace
        exact hfront.no_opening ⟨[], r, rfl⟩
    rw [List.cons_append, Chars.splitFirst?, hmiss, if_neg Bool.false_ne_true, ih hr,
      Option.map_map]
    rfl

/-- No placeholder opens where a plain value follows literal text. -/
theorem Plain.not_infix (hvalue : Plain value) (hbefore : ¬ variableMarks.opening <:+: before) :
    ¬ variableMarks.opening <:+: before ++ value := by
  rintro ⟨a, b, hab⟩
  rw [List.append_assoc] at hab
  rcases List.append_eq_append_iff.1 hab with ⟨c, rfl, hc⟩ | ⟨c, rfl, hc⟩
  · -- the dollar sign is in the literal text
    have hc' : '$' :: '\x7b' :: b = c ++ value := hc
    cases c with
    | nil =>
      obtain rfl : value = '$' :: '\x7b' :: b := hc'.symm
      exact hvalue.no_dollar List.mem_cons_self
    | cons d c =>
      obtain ⟨rfl, hbrace⟩ := List.cons.inj hc'
      cases c with
      | nil =>
        obtain rfl : value = '\x7b' :: b := hbrace.symm
        exact hvalue.no_brace rfl
      | cons e c =>
        obtain ⟨rfl, -⟩ := List.cons.inj hbrace
        exact hbefore ⟨a, c, by rw [List.append_assoc]; rfl⟩
  · -- it is in the value
    refine hvalue.no_dollar ?_
    rw [hc]
    exact List.mem_append_right _ List.mem_cons_self

/-- A plain value seals the text that it is put behind. -/
theorem Sealed.append (hfront : Sealed front) (hbefore : ¬ variableMarks.opening <:+: before)
    (hvalue : Plain value) : Sealed (front ++ (before ++ value)) := by
  constructor
  · rw [← splitFirst?_eq_none_iff, hfront.splitFirst?,
      splitFirst?_eq_none_iff.2 (hvalue.not_infix hbefore)]
    rfl
  · intro hlast
    obtain ⟨d, hd⟩ := Option.ne_none_iff_exists'.1 (mt List.getLast?_eq_none_iff.1 hvalue.ne_nil)
    rw [List.getLast?_append, List.getLast?_append, hd] at hlast
    obtain rfl : d = '$' := Option.some.inj hlast
    exact hvalue.no_dollar (List.mem_of_getLast? hd)

end Seams

/-! ## Filled texts -/

section Filled

variable {value? : List Char → Option (List Char)} {template front : List Char}

/-- **The placeholders of a filled text are those that had no value** (`Filled.unresolved`), also
behind a sealed text (`Sealed`). -/
theorem holes_append_fill
    (hplain : ∀ name ∈ holes variableMarks template, ∀ v, value? name = some v → Plain v)
    (hfront : Sealed front) :
    holes variableMarks (front ++ (fill variableMarks value? template).text) =
      (fill variableMarks value? template).unresolved := by
  -- what was filled so far is the sealed text, and it grows with every value
  induction template using pieces.induct variableMarks generalizing front with
  | case1 template ho =>
    rw [fill_of_no_opening ho]
    exact holes_of_no_opening (by rw [hfront.splitFirst?, ho]; rfl)
  | case2 template before inside ho hc =>
    rw [fill_of_no_closing ho hc]
    exact holes_of_no_closing (by rw [hfront.splitFirst?, ho]; rfl) hc
  | case3 template before inside ho name rest hc ih =>
    rw [holes_of_placeholder ho hc] at hplain
    have hcut := splitFirst?_eq_some_iff.1 ho
    have hrest := fun {front} (h : Sealed front) =>
      ih (fun n hn => hplain n (List.mem_cons_of_mem name hn)) h
    rw [fill_of_placeholder ho hc]
    cases hvalue : value? name with
    | some v =>
      have hsealed := hfront.append (hcut.not_infix variableMarks.opening_ne_nil)
        (hplain name List.mem_cons_self v hvalue)
      have hsame := hrest hsealed
      rw [List.append_assoc, List.append_assoc] at hsame
      exact hsame
    | none =>
      -- the placeholder stands as it did, and behind its closing mark nothing is half open
      have ho' := splitFirst?_eq_some_iff.2
        (hcut.change (name ++ (variableMarks.closing ++ (fill variableMarks value? rest).text)))
      have hc' := splitFirst?_eq_some_iff.2
        ((splitFirst?_eq_some_iff.1 hc).change (fill variableMarks value? rest).text)
      rw [List.append_assoc] at ho' hc'
      have hsame := hrest sealed_nil
      rw [List.nil_append] at hsame
      show holes variableMarks (front ++ (before ++ (variableMarks.opening ++ (name ++
        (variableMarks.closing ++ (fill variableMarks value? rest).text))))) = _
      rw [holes_of_placeholder (by rw [hfront.splitFirst?, ho']; rfl) hc', hsame]

/-- A name that is reported has no value. -/
theorem eq_none_of_mem_unresolved {marks : Marks} {name : List Char}
    (h : name ∈ (fill marks value? template).unresolved) : value? name = none := by
  rw [fill_eq_assemble] at h
  exact Option.isNone_iff_eq_none.1 (List.mem_filter.1 h).2

/-- Filling a text whose placeholders have no value any more: `fill` leaves it alone. -/
theorem fill_fill
    (hplain : ∀ name ∈ holes variableMarks template, ∀ v, value? name = some v → Plain v)
    {value?' : List Char → Option (List Char)}
    (hnone : ∀ name ∈ (fill variableMarks value? template).unresolved, value?' name = none) :
    fill variableMarks value?' (fill variableMarks value? template).text =
      fill variableMarks value? template := by
  have hholes : holes variableMarks (fill variableMarks value? template).text =
      (fill variableMarks value? template).unresolved :=
    holes_append_fill hplain sealed_nil
  rw [fill_of_forall_none (by rw [hholes]; exact hnone), hholes]

end Filled

/-- **Filling a filled text changes nothing**, if the values in it are `Plain`: `interpolation`
gives the same text and the same names without a value again.  Where every name had a value, the
text has no placeholder left (`hasPlaceholders`), and no context changes it. -/
theorem interpolation_interpolate {ctx : Context} {template : String}
    (hplain : ∀ name ∈ names template, ∀ v, ctx.get? name = some v → Plain v.stringForm.toList) :
    interpolation ctx (interpolate ctx template) = interpolation ctx template ∧
      ((interpolation ctx template).unresolved = [] →
        hasPlaceholders (interpolate ctx template) = false ∧
          ∀ other : Context, interpolation other (interpolate ctx template) =
            ⟨interpolate ctx template, []⟩) := by
  have htext : (interpolate ctx template).toList =
      (fill variableMarks (valueIn ctx) template.toList).text := String.toList_ofList
  have hvalues : ∀ name ∈ holes variableMarks template.toList, ∀ v,
      valueIn ctx name = some v → Plain v := by
    intro name hname v hv
    obtain ⟨s, hs, rfl⟩ := Option.map_eq_some_iff.1 hv
    obtain ⟨j, hj, rfl⟩ := Option.map_eq_some_iff.1 hs
    exact hplain _ (List.mem_map_of_mem hname) j hj
  constructor
  · have hsame := fill_fill hvalues fun _ => eq_none_of_mem_unresolved
    rw [interpolation_eq, htext, hsame]
    rfl
  · intro hresolved
    have hnone : (fill variableMarks (valueIn ctx) template.toList).unresolved = [] :=
      List.map_eq_nil_iff.1 hresolved
    constructor
    · -- what filling leaves of the placeholders are those without a value, and there are none
      have hholes := holes_append_fill hvalues sealed_nil
      rw [List.nil_append, hnone, ← htext] at hholes
      rw [← Bool.not_eq_true, hasPlaceholders_iff]
      exact fun h => h hholes
    · intro other
      have hnowhere : ∀ name ∈ (fill variableMarks (valueIn ctx) template.toList).unresolved,
          valueIn other name = none := by
        rw [hnone]
        exact fun _ h => nomatch h
      have hsame := fill_fill hvalues hnowhere
      rw [interpolation_eq, htext, hsame, hnone]
      rfl

namespace Seams

/-- Two variables, one of them with braces in its value. -/
def context : Context :=
  (Context.empty.set "id" (.int 7) none).set "odd" (.string "\x7d\x7d\x7b") none

/-- Placeholders between dollar signs and braces, one of them without a value, and an opening that
nothing closes. -/
def template : String := "$$\x7bid\x7d\x7b$\x7bno$\x7bpe\x7d$$\x7bodd\x7d $\x7bid"

/-- The same without the placeholder that has no value. -/
def resolved : String := "$$\x7bid\x7d\x7b$$\x7bodd\x7d $\x7bid"

theorem plain_of_get? {name : String} {v : Json} (h : context.get? name = some v) :
    Plain v.stringForm.toList := by
  have hcases : v = .string "\x7d\x7d\x7b" ∨ v = .int 7 := by
    simp only [context, Context.get?_set] at h
    split at h
    · exact .inl (Option.some.inj h).symm
    · split at h
      · exact .inr (Option.some.inj h).symm
      · cases h
  rcases hcases with rfl | rfl
  · exact ⟨by decide +kernel, by decide +kernel, by decide +kernel⟩
  · exact ⟨by decide +kernel, by decide +kernel, by decide +kernel⟩

end Seams

/-- Dollar signs and braces at the seams, and braces in a value, open no placeholder. -/
theorem interpolation_interpolate_seams :
    (∀ name ∈ names Seams.template, ∀ v, Seams.context.get? name = some v →
      Plain v.stringForm.toList) ∧
    (∀ name ∈ names Seams.resolved, ∀ v, Seams.context.get? name = some v →
      Plain v.stringForm.toList) ∧
    interpolation Seams.context Seams.template =
      ⟨"$7\x7b$\x7bno$\x7bpe\x7d$\x7d\x7d\x7b $\x7bid", ["no$\x7bpe"]⟩ ∧
    interpolation Seams.context (interpolate Seams.context Seams.template) =
      interpolation Seams.context Seams.template ∧
    interpolation Seams.context Seams.resolved = ⟨"$7\x7b$\x7d\x7d\x7b $\x7bid", []⟩ ∧
    hasPlaceholders (interpolate Seams.context Seams.resolved) = false ∧
    ∀ other : Context, interpolation other (interpolate Seams.context Seams.resolved) =
      ⟨interpolate Seams.context Seams.resolved, []⟩ := by
  have hplain : ∀ text, ∀ name ∈ names text, ∀ v, Seams.context.get? name = some v →
      Plain v.stringForm.toList := fun _ _ _ _ => Seams.plain_of_get?
  have hresolved : interpolation Seams.context Seams.resolved =
      ⟨"$7\x7b$\x7d\x7d\x7b $\x7bid", []⟩ := by decide +kernel
  exact ⟨hplain _, hplain _, by decide +kernel, (interpolation_interpolate (hplain _)).1, hresolved,
    (interpolation_interpolate (hplain _)).2 (by rw [hresolved])⟩

end RestCase.Template
