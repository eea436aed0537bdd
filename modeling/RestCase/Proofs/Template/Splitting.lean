/-
# RestCase.Proofs.Template.Splitting — how a template is split

A template is literal text and names in placeholders, in turn.  Where one ends and the next begins
is said by the text alone (`Splits`): a placeholder opens at the first opening mark of what is left
and closes at the first closing mark behind that, and an opening that nothing closes is literal text
to the end.  A template has one split, the one into its pieces (`splits_iff`).  Filling puts values
into this split and does nothing else (`fill_eq_assemble`), so whatever marks the values have in
them, they neither open a placeholder nor close one; where no name has a value, it gives the
template back (`fill_of_forall_none`).

Template variables are put in by filling too, also where the text is passed on
(`applyVariables_eq_fill`), with the values that `effectiveValue?_eq_some_iff` describes.
`assembled_from_one_split` says of both that one split serves all values.
-/
import Mathlib.Data.List.Basic
import RestCase.Proofs.Template.Filling

namespace RestCase.Template

open Chars (CutFirst splitFirst?_eq_some_iff splitFirst?_eq_none_iff)

/-! ## Splits -/

/-- A template is split into pieces: each placeholder is cut out where its marks come first
(`Chars.CutFirst`). -/
inductive Splits (marks : Marks) : List Char → List Piece → Prop
  | plain {text : List Char} (h : ¬ marks.opening <:+: text) : Splits marks text [.literal text]
  | unclosed {text before inside : List Char} (hopen : CutFirst marks.opening text before inside)
      (h : ¬ marks.closing <:+: inside) : Splits marks text [.literal text]
  | hole {text before inside name rest : List Char} {ps : List Piece}
      (hopen : CutFirst marks.opening text before inside)
      (hclose : CutFirst marks.closing inside name rest) (hrest : Splits marks rest ps) :
      Splits marks text (.literal before :: .hole name :: ps)

/-- Literal text and names in turn, with literal text at both ends. -/
def Alternates : List Piece → Prop
  | [.literal _] => True
  | .literal _ :: .hole _ :: ps => Alternates ps
  | _ => False

/-- The names among the pieces. -/
def namesIn (ps : List Piece) : List (List Char) :=
  ps.filterMap fun
    | .literal _ => none
    | .hole name => some name

@[simp] theorem namesIn_literal (text : List Char) (ps : List Piece) :
    namesIn (.literal text :: ps) = namesIn ps := rfl

@[simp] theorem namesIn_hole (name : List Char) (ps : List Piece) :
    namesIn (.hole name :: ps) = name :: namesIn ps := rfl

section Splitting

variable {marks : Marks} {text : List Char} {ps : List Piece}

theorem splits_pieces (marks : Marks) (text : List Char) :
    Splits marks text (pieces marks text) := by
  induction text using pieces.induct marks with
  | case1 text ho =>
    rw [pieces_of_no_opening ho]
    exact .plain (splitFirst?_eq_none_iff.1 ho)
  | case2 text before inside ho hc =>
    rw [pieces_of_no_closing ho hc]
    exact .unclosed (splitFirst?_eq_some_iff.1 ho) (splitFirst?_eq_none_iff.1 hc)
  | case3 text before inside ho name rest hc ih =>
    rw [pieces_of_placeholder ho hc]
    exact .hole (splitFirst?_eq_some_iff.1 ho) (splitFirst?_eq_some_iff.1 hc) ih

/-- **A template has one split**: `pieces` is what it `Splits` into. -/
theorem splits_iff : Splits marks text ps ↔ pieces marks text = ps := by
  refine ⟨fun h => ?_, fun h => h ▸ splits_pieces marks text⟩
  induction h with
  | plain h => exact pieces_of_no_opening (splitFirst?_eq_none_iff.2 h)
  | unclosed hopen h =>
    exact pieces_of_no_closing (splitFirst?_eq_some_iff.2 hopen) (splitFirst?_eq_none_iff.2 h)
  | hole hopen hclose _ ih =>
    rw [pieces_of_placeholder (splitFirst?_eq_some_iff.2 hopen) (splitFirst?_eq_some_iff.2 hclose),
      ih]

theorem Splits.alternates (h : Splits marks text ps) : Alternates ps := by
  induction h with
  | plain | unclosed => exact trivial
  | hole _ _ _ ih => exact ih

/-- The pieces as they stand make up the template. -/
theorem Splits.verbatim (h : Splits marks text ps) : ps.flatMap (Piece.verbatim marks) = text := by
  induction h with
  | plain | unclosed => exact List.append_nil _
  | hole hopen hclose _ ih =>
    rw [List.flatMap_cons, List.flatMap_cons, ih, hopen.1, hclose.1]
    simp [Piece.verbatim]

end Splitting

/-! ## Values in a split -/

/-- A piece with its value put in, if its name has one. -/
def Piece.filled (marks : Marks) (value? : List Char → Option (List Char)) : Piece → List Char
  | .literal text => text
  | .hole name => (value? name).getD ((Piece.hole name).verbatim marks)

/-- The pieces with the values put in (`Piece.filled`), and the names without one. -/
def assemble (marks : Marks) (value? : List Char → Option (List Char)) (ps : List Piece) : Filled :=
  ⟨ps.flatMap (Piece.filled marks value?),
    (namesIn ps).filter fun name => (value? name).isNone⟩

section Filling

variable {marks : Marks} {value? : List Char → Option (List Char)} {text : List Char}

/-- **Filling puts the values into the pieces**: `fill` is `assemble` over `pieces`. -/
theorem fill_eq_assemble (marks : Marks) (value? : List Char → Option (List Char))
    (text : List Char) : fill marks value? text = assemble marks value? (pieces marks text) := by
  induction text using pieces.induct marks with
  | case1 text ho =>
    rw [fill_of_no_opening ho, pieces_of_no_opening ho]
    simp [assemble, Piece.filled, namesIn]
  | case2 text before inside ho hc =>
    rw [fill_of_no_closing ho hc, pieces_of_no_closing ho hc]
    simp [assemble, Piece.filled, namesIn]
  | case3 text before inside ho name rest hc ih =>
    rw [fill_of_placeholder ho hc, pieces_of_placeholder ho hc, ih]
    cases hvalue : value? name with
    | none => simp [assemble, Piece.filled, Piece.verbatim, hvalue]
    | some v => simp [assemble, Piece.filled, hvalue]

/-- **Where no name has a value, filling gives the template back**, and reports every name. -/
theorem fill_of_forall_none (h : ∀ name ∈ holes marks text, value? name = none) :
    fill marks value? text = ⟨text, holes marks text⟩ := by
  have hfilled : (pieces marks text).flatMap (Piece.filled marks value?) = text := by
    refine (List.flatMap_congr fun p hp => ?_).trans (splits_pieces marks text).verbatim
    cases p with
    | literal t => rfl
    | hole name =>
      have hname : name ∈ holes marks text := List.mem_filterMap.2 ⟨_, hp, rfl⟩
      rw [Piece.filled, h name hname, Option.getD_none]
  have hnames : (holes marks text).filter (fun name => (value? name).isNone) =
      holes marks text := by
    refine List.filter_eq_self.2 fun name hname => ?_
    rw [h name hname, Option.isNone_none]
  rw [fill_eq_assemble, assemble, hfilled]
  exact congrArg (Filled.mk text) hnames

end Filling

/-! ## Template variables -/

/-- The template variables have a value for a name: of the first variable with the trimmed name, the
value, or else the default. -/
def Provides (vars : List Variable) (name value : List Char) : Prop :=
  ∃ earlier v later, vars = earlier ++ v :: later ∧ v.name.toList = Chars.trim name ∧
    (∀ e ∈ earlier, e.name.toList ≠ Chars.trim name) ∧
    (v.value = some (String.ofList value) ∨
      v.value = none ∧ v.defaultValue = some (String.ofList value))

theorem Variable.effective?_eq_some_iff {v : Variable} {value : String} :
    v.effective? = some value ↔
      v.value = some value ∨ v.value = none ∧ v.defaultValue = some value := by
  unfold Variable.effective?
  cases v.value with
  | none => simp
  | some own => simp

/-- **Which value the template variables have for a name**: `effectiveValue?` gives what they
provide (`Provides`). -/
theorem effectiveValue?_eq_some_iff {vars : List Variable} {name value : List Char} :
    effectiveValue? vars name = some value ↔ Provides vars name value := by
  have hname : ∀ v : Variable,
      (v.name == String.ofList (Chars.trim name)) = true ↔ v.name.toList = Chars.trim name := by
    intro v
    rw [beq_iff_eq, ← String.toList_inj, String.toList_ofList]
  unfold effectiveValue? Provides
  simp only
  rw [Option.map_eq_some_iff]
  constructor
  · rintro ⟨found, hfound, rfl⟩
    obtain ⟨v, hv, hvalue⟩ := Option.bind_eq_some_iff.1 hfound
    obtain ⟨hkey, earlier, later, hvars, hearlier⟩ := List.find?_eq_some_iff_append.1 hv
    refine ⟨earlier, v, later, hvars, (hname v).1 hkey, fun e he hsame => ?_, ?_⟩
    · have hother := hearlier e he
      rw [(hname e).2 hsame] at hother
      cases hother
    · rw [String.ofList_toList]
      exact Variable.effective?_eq_some_iff.1 hvalue
  · rintro ⟨earlier, v, later, hvars, hkey, hearlier, hvalue⟩
    refine ⟨String.ofList value, Option.bind_eq_some_iff.2 ⟨v, ?_, ?_⟩, String.toList_ofList⟩
    · refine List.find?_eq_some_iff_append.2 ⟨(hname v).2 hkey, earlier, later, hvars, ?_⟩
      intro e he
      rw [Bool.not_eq_true', ← Bool.not_eq_true, hname e]
      exact hearlier e he
    · exact Variable.effective?_eq_some_iff.2 hvalue

/-- Nothing is lost by not looking for placeholders of template variables. -/
theorem applyVariables_eq_fill (vars : List Variable) (template : String) :
    applyVariables vars template =
      String.ofList (fill payloadMarks (effectiveValue? vars) template.toList).text := by
  unfold applyVariables
  split
  · next h =>
    rcases Bool.or_eq_true_iff.1 h with hempty | hmissing
    · obtain rfl := List.isEmpty_iff.1 hempty
      have hnone : ∀ name ∈ holes payloadMarks template.toList, effectiveValue? [] name = none :=
        fun _ _ => rfl
      rw [fill_of_forall_none hnone, String.ofList_toList]
    · have hnone : Chars.splitFirst? payloadMarks.opening template.toList = none := by
        simpa [Chars.contains] using hmissing
      rw [fill_of_no_opening hnone, String.ofList_toList]
  · rfl

/-- The pieces are the one split of a text: literal text and names in turn, which put together as
they stand give the text. -/
structure IsSplit (marks : Marks) (text : List Char) (ps : List Piece) : Prop where
  splits : Splits marks text ps
  unique : ∀ ps', Splits marks text ps' → ps' = ps
  alternates : Alternates ps
  verbatim : ps.flatMap (Piece.verbatim marks) = text

theorem isSplit_pieces (marks : Marks) (text : List Char) :
    IsSplit marks text (pieces marks text) where
  splits := splits_pieces marks text
  unique := fun _ h => (splits_iff.1 h).symm
  alternates := (splits_pieces marks text).alternates
  verbatim := (splits_pieces marks text).verbatim

/-- **Filling follows one split that does not depend on the values.**  A template has one split
(`IsSplit`) for the variables of the context and one for template variables; whatever their values
are, what comes of the template is that split with the values put in (`assemble`), where a name
without a value keeps its placeholder and is reported. -/
theorem assembled_from_one_split (template : String) :
    (∃ ps, IsSplit variableMarks template.toList ps ∧ ∀ ctx : Context,
      interpolation ctx template =
        ⟨String.ofList (ps.flatMap (Piece.filled variableMarks fun name =>
            (ctx.get? (String.ofList name)).map fun v => v.stringForm.toList)),
          ((namesIn ps).map String.ofList).filter fun name => (ctx.get? name).isNone⟩) ∧
    (∃ ps, IsSplit payloadMarks template.toList ps ∧ ∀ vars : List Variable,
      (∀ name value, effectiveValue? vars name = some value ↔ Provides vars name value) ∧
      applyVariables vars template =
        String.ofList (ps.flatMap (Piece.filled payloadMarks (effectiveValue? vars))) ∧
      (fill payloadMarks (effectiveValue? vars) template.toList).unresolved =
        (namesIn ps).filter fun name => (effectiveValue? vars name).isNone) := by
  constructor
  · refine ⟨_, isSplit_pieces variableMarks template.toList, fun ctx => ?_⟩
    have hvalue : valueIn ctx = fun name =>
        (ctx.get? (String.ofList name)).map fun v => v.stringForm.toList := by
      funext name
      rw [valueIn, Context.getString?, Option.map_map]
      rfl
    have hnames : ((namesIn (pieces variableMarks template.toList)).filter
          fun name => (valueIn ctx name).isNone).map String.ofList =
        ((namesIn (pieces variableMarks template.toList)).map String.ofList).filter
          fun name => (ctx.get? name).isNone := by
      rw [List.filter_map, hvalue]
      refine congrArg (List.map String.ofList) (List.filter_congr fun name _ => ?_)
      exact Option.isNone_map
    rw [interpolation_eq, fill_eq_assemble, ← hnames, ← hvalue]
    rfl
  · refine ⟨_, isSplit_pieces payloadMarks template.toList, fun vars =>
      ⟨fun name value => effectiveValue?_eq_some_iff, ?_, ?_⟩⟩
    · rw [applyVariables_eq_fill, fill_eq_assemble]
      rfl
    · rw [fill_eq_assemble]
      rfl

end RestCase.Template
