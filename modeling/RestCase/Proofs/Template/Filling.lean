/-
# RestCase.Proofs.Template.Filling — what a filled template depends on

Filling goes along the pieces of a template, and of the values it asks only for those whose names
stand in its placeholders.  So two assignments that agree on these names fill the template alike
(`fill_congr`), and so do two contexts (`interpolate_congr`): the names in the placeholders are all
that a text reads of a context.  A placeholder with a known name is replaced, and the rest is filled
(`fill_placeholder`); a text has placeholders exactly if it has a name in one
(`hasPlaceholders_iff`).
-/
import RestCase.Proofs.Chars.Search
import RestCase.Template

namespace RestCase.Template

/-! ## One step of filling -/

section Steps

variable {marks : Marks} {value? : List Char → Option (List Char)}
  {template before inside name rest : List Char}

/-- Filling looks for a mark that opens a placeholder, and behind it for one that closes it. -/
theorem fill_eq (marks : Marks) (value? : List Char → Option (List Char)) (template : List Char) :
    fill marks value? template =
      match Chars.splitFirst? marks.opening template with
      | none => ⟨template, []⟩
      | some (before, inside) =>
        match Chars.splitFirst? marks.closing inside with
        | none => ⟨template, []⟩
        | some (name, rest) =>
          match value? name with
          | some v => ⟨before ++ (v ++ (fill marks value? rest).text),
              (fill marks value? rest).unresolved⟩
          | none => ⟨before ++ (marks.opening ++ (name ++ (marks.closing ++
              (fill marks value? rest).text))), name :: (fill marks value? rest).unresolved⟩ := by
  rw [fill]
  split
  · next ho => rw [ho]
  · next ho =>
    rw [ho]
    split
    · next hc => simp only [hc]
    · next name rest hc =>
      cases hv : value? name <;> simp only [hc, hv]

/-- A template without a placeholder stays as it is. -/
theorem fill_of_no_opening (h : Chars.splitFirst? marks.opening template = none) :
    fill marks value? template = ⟨template, []⟩ := by
  rw [fill_eq, h]

theorem fill_of_no_closing (h : Chars.splitFirst? marks.opening template = some (before, inside))
    (h' : Chars.splitFirst? marks.closing inside = none) :
    fill marks value? template = ⟨template, []⟩ := by
  rw [fill_eq, h]
  simp only [h']

/-- A placeholder is replaced, or stays and is reported. -/
theorem fill_of_placeholder (h : Chars.splitFirst? marks.opening template = some (before, inside))
    (h' : Chars.splitFirst? marks.closing inside = some (name, rest)) :
    fill marks value? template =
      match value? name with
      | some v => ⟨before ++ (v ++ (fill marks value? rest).text),
          (fill marks value? rest).unresolved⟩
      | none => ⟨before ++ (marks.opening ++ (name ++ (marks.closing ++
          (fill marks value? rest).text))), name :: (fill marks value? rest).unresolved⟩ := by
  rw [fill_eq, h]
  simp only [h']

/-- The pieces are cut at the same marks. -/
theorem pieces_eq (marks : Marks) (template : List Char) :
    pieces marks template =
      match Chars.splitFirst? marks.opening template with
      | none => [.literal template]
      | some (before, inside) =>
        match Chars.splitFirst? marks.closing inside with
        | none => [.literal template]
        | some (name, rest) => .literal before :: .hole name :: pieces marks rest := by
  rw [pieces]
  split
  · next ho => rw [ho]
  · next ho =>
    rw [ho]
    split
    · next hc => simp only [hc]
    · next hc => simp only [hc]

theorem pieces_of_no_opening (h : Chars.splitFirst? marks.opening template = none) :
    pieces marks template = [.literal template] := by
  rw [pieces_eq, h]

theorem pieces_of_no_closing (h : Chars.splitFirst? marks.opening template = some (before, inside))
    (h' : Chars.splitFirst? marks.closing inside = none) :
    pieces marks template = [.literal template] := by
  rw [pieces_eq, h]
  simp only [h']

theorem pieces_of_placeholder
    (h : Chars.splitFirst? marks.opening template = some (before, inside))
    (h' : Chars.splitFirst? marks.closing inside = some (name, rest)) :
    pieces marks template = .literal before :: .hole name :: pieces marks rest := by
  rw [pieces_eq, h]
  simp only [h']

end Steps

/-! ## Names in placeholders -/

/-- The names in the placeholders of a template, from its `pieces`. -/
def holes (marks : Marks) (template : List Char) : List (List Char) :=
  (pieces marks template).filterMap fun
    | .literal _ => none
    | .hole name => some name

section Holes

variable {marks : Marks} {template before inside name rest : List Char}

theorem holes_of_no_opening (h : Chars.splitFirst? marks.opening template = none) :
    holes marks template = [] := by
  rw [holes, pieces_of_no_opening h]
  rfl

theorem holes_of_no_closing (h : Chars.splitFirst? marks.opening template = some (before, inside))
    (h' : Chars.splitFirst? marks.closing inside = none) : holes marks template = [] := by
  rw [holes, pieces_of_no_closing h h']
  rfl

theorem holes_of_placeholder
    (h : Chars.splitFirst? marks.opening template = some (before, inside))
    (h' : Chars.splitFirst? marks.closing inside = some (name, rest)) :
    holes marks template = name :: holes marks rest := by
  rw [holes, pieces_of_placeholder h h']
  rfl

/-- **Only the names in the placeholders count** (`holes`): values that agree on them fill alike. -/
theorem fill_congr {value? value?' : List Char → Option (List Char)}
    (h : ∀ name ∈ holes marks template, value? name = value?' name) :
    fill marks value? template = fill marks value?' template := by
  induction template using pieces.induct marks with
  | case1 template ho => rw [fill_of_no_opening ho, fill_of_no_opening ho]
  | case2 template before inside ho hc => rw [fill_of_no_closing ho hc, fill_of_no_closing ho hc]
  | case3 template before inside ho name rest hc ih =>
    rw [holes_of_placeholder ho hc] at h
    rw [fill_of_placeholder ho hc, fill_of_placeholder ho hc, h name List.mem_cons_self,
      ih fun n hn => h n (List.mem_cons_of_mem name hn)]

end Holes

/-! ## Variables of the context -/

/-- What the placeholders of a context ask for (`Context.getString?`), as `fill` takes it. -/
abbrev valueIn (ctx : Context) : List Char → Option (List Char) := fun name =>
  (ctx.getString? (String.ofList name)).map String.toList

/-- The characters of a name lead to the characters of its value. -/
theorem valueIn_of_getString? {ctx : Context} {name value : String}
    (h : ctx.getString? name = some value) : valueIn ctx name.toList = some value.toList := by
  rw [valueIn, String.ofList_toList, h]
  rfl

theorem interpolation_eq (ctx : Context) (text : String) :
    interpolation ctx text =
      ⟨String.ofList (fill variableMarks (valueIn ctx) text.toList).text,
        (fill variableMarks (valueIn ctx) text.toList).unresolved.map String.ofList⟩ := rfl

/-- The names of the variables that a text has placeholders for. -/
def names (text : String) : List String := (holes variableMarks text.toList).map String.ofList

/-- **A text reads of a context** the variables that it has placeholders for (`names`), and
nothing else. -/
theorem interpolate_congr {c d : Context} {text : String}
    (h : ∀ name ∈ names text, c.get? name = d.get? name) :
    interpolate c text = interpolate d text := by
  unfold interpolate interpolation
  refine congrArg (fun f : Filled => String.ofList f.text) (fill_congr ?_)
  intro name hname
  show (c.getString? (String.ofList name)).map String.toList = _
  rw [Context.getString?, h _ (List.mem_map_of_mem hname)]
  rfl

/-- A text has placeholders (`hasPlaceholders`) exactly if it has a name in one (`holes`). -/
theorem hasPlaceholders_iff {text : String} :
    hasPlaceholders text = true ↔ holes variableMarks text.toList ≠ [] := by
  unfold hasPlaceholders
  cases ho : Chars.splitFirst? variableMarks.opening text.toList with
  | none => simp [holes_of_no_opening ho]
  | some cut =>
    obtain ⟨before, inside⟩ := cut
    show (Chars.splitFirst? variableMarks.closing inside).isSome = true ↔ _
    cases hc : Chars.splitFirst? variableMarks.closing inside with
    | none => simp [holes_of_no_closing ho hc]
    | some cut' => simp [holes_of_placeholder ho hc]

/-! ## Placeholders between texts -/

/-- The placeholder of a variable, its name between `variableMarks`. -/
def placeholder (name : String) : List Char :=
  variableMarks.opening ++ name.toList ++ variableMarks.closing

/-- **A placeholder whose variable has a value** is replaced by the string form of the value, which
is not looked at again; before it stands text without a dollar sign. -/
theorem fill_placeholder {value? : List Char → Option (List Char)} {before name v : List Char}
    (hbefore : '$' ∉ before) (hname : '\x7d' ∉ name) (hv : value? name = some v)
    (rest : List Char) :
    (fill variableMarks value? (before ++ (variableMarks.opening ++ name ++ variableMarks.closing
      ++ rest))).text = before ++ (v ++ (fill variableMarks value? rest).text) := by
  have ho : Chars.splitFirst? variableMarks.opening
      (before ++ (variableMarks.opening ++ (name ++ (variableMarks.closing ++ rest)))) =
        some (before, name ++ (variableMarks.closing ++ rest)) :=
    Chars.splitFirst?_append ['\x7b'] hbefore _
  have hc : Chars.splitFirst? variableMarks.closing (name ++ (variableMarks.closing ++ rest)) =
      some (name, rest) := Chars.splitFirst?_append [] hname rest
  rw [List.append_assoc, List.append_assoc, fill_of_placeholder ho hc, hv]

end RestCase.Template
