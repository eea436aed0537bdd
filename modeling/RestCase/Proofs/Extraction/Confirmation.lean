/-
# RestCase.Proofs.Extraction.Confirmation — what a rule stores, an assertion confirms

A rule and an assertion read a path apart from each other.  The rule takes a text that is no path,
and a body that is no document, for one that has nothing to store; the assertion makes a failure of
either.  Both come down to what the path finds (`ExtractionRule.find?`), so that a rule without a
default stores something exactly where the assertion that the path exists passes
(`check_exist_iff`).

A value that was stored goes into an expectation as text.  No value but null is lost on this way:
the text is put in as a whole, whatever marks of placeholders it holds, and a value agrees loosely
with its own string form (`check_equals_stored`).  `extract_confirmed` puts the two together.

Boundary: a path that cannot be followed ends both without a result, and is excluded by a
hypothesis; `RestCase.Proofs.Run.Returning` says when that happens.
-/
import RestCase.Proofs.Run.Returning
import RestCase.Proofs.Template.Filling

namespace RestCase

/-! ## Rules and assertions on one path -/

/-- The rule that stores what a path finds and has no default. -/
def ExtractionRule.storing (path target : String) : ExtractionRule := ⟨path, target, none⟩

/-- The assertion that a path leads somewhere; its expected value has no part in that. -/
def PathAssertion.existing (path : String) (expected : Json) : PathAssertion :=
  ⟨path, expected, Comparison.exist.name⟩

/-- The assertion that a path leads to the value of a variable. -/
def PathAssertion.equalling (path name : String) : PathAssertion :=
  ⟨path, .string (String.ofList (Template.placeholder name)), Comparison.equals.name⟩

/-! ## What a path finds -/

section Finding

variable [Pattern.Engine] {document v : Json} {path : String}

theorem find?_eq_some_iff :
    ExtractionRule.find? document path = .ok (some v) ↔
      ∃ p, Path.parse path = .ok p ∧ p.evaluate document = .ok (some v) := by
  unfold ExtractionRule.find?
  cases Path.parse path with
  | error fault => simp
  | ok p => simp

/-- Unless the path breaks down, it finds a value or finds nothing. -/
theorem exists_find? (h : ¬ PathTextBreaksOn path document) :
    ∃ found, ExtractionRule.find? document path = .ok found := by
  unfold ExtractionRule.find?
  cases hp : Path.parse path with
  | error fault => exact ⟨none, rfl⟩
  | ok p =>
    have hsound : ¬ Breaks (p.evaluate document) := by
      rw [Path.evaluate_breaks_iff]
      exact fun hbreaks => h ⟨p, hp, hbreaks⟩
    exact not_breaks_iff.1 hsound

/-- **The assertion that a path exists** (`PathAssertion.existing`) passes exactly where the path
finds something. -/
theorem check_exist_iff {expected : Json} {ctx : Option Context} :
    (PathAssertion.existing path expected).check document ctx = .ok none ↔
      ∃ v, ExtractionRule.find? document path = .ok (some v) := by
  simp only [find?_eq_some_iff, PathAssertion.check, PathAssertion.existing,
    Comparison.ofName?_name]
  cases Path.parse path with
  | error fault => simp
  | ok p =>
    cases hfound : p.evaluate document with
    | error e => simp [Except.map, hfound]
    | ok found =>
      cases found with
      | none => simp [Except.map, hfound, PathAssertion.failureOf?]
      | some w => simp [Except.map, hfound, PathAssertion.failureOf?, Comparison.holds]

/-- The assertion that a path leads to a value passes where `find?` gives one that agrees with it
(`Json.looselyEqual`). -/
theorem check_equals_of_find? {name : String} {ctx : Option Context}
    (h : ExtractionRule.find? document path = .ok (some v))
    (hagree : v.looselyEqual ((PathAssertion.equalling path name).resolved ctx) = true) :
    (PathAssertion.equalling path name).check document ctx = .ok none := by
  obtain ⟨p, hp, hv⟩ := find?_eq_some_iff.1 h
  simp only [PathAssertion.check, PathAssertion.equalling, Comparison.ofName?_name, hp, hv]
  simp only [PathAssertion.equalling] at hagree
  simp [Except.map, PathAssertion.failureOf?, Comparison.holds, hagree]

end Finding

/-! ## The way of a value into an expectation -/

/-- **A value agrees with its own string form**, unless it is null. -/
theorem Json.looselyEqual_stringForm {v : Json} (h : v ≠ .null) :
    v.looselyEqual (.string v.stringForm) = true := by
  cases v with
  | null => exact absurd rfl h
  | bool | int | float | string | array | object => simp [looselyEqual, stringForm]

namespace Template

/-- **A placeholder alone** is replaced by the string form of its variable (`Context.getString?`),
which is not looked at again. -/
theorem interpolate_placeholder {ctx : Context} {name text : String}
    (hname : '\x7d' ∉ name.toList) (htext : ctx.getString? name = some text) :
    interpolate ctx (String.ofList (placeholder name)) = text := by
  let value? : List Char → Option (List Char) := fun name =>
    (ctx.getString? (String.ofList name)).map String.toList
  have hvalue : value? name.toList = some text.toList := by
    simp [value?, htext]
  have hbefore : '$' ∉ [] := List.not_mem_nil
  have hfill := fill_placeholder hbefore hname hvalue []
  have hnothing : fill variableMarks value? [] = ⟨[], []⟩ :=
    fill_of_no_opening (Chars.splitFirst?_eq_none ['\x7b'] List.not_mem_nil)
  rw [hnothing] at hfill
  unfold interpolate interpolation
  rw [String.toList_ofList]
  simpa [placeholder] using congrArg String.ofList hfill

theorem hasPlaceholders_placeholder (name : String) :
    hasPlaceholders (String.ofList (placeholder name)) = true := by
  have hopening : Chars.splitFirst? variableMarks.opening (placeholder name) =
      some ([], name.toList ++ variableMarks.closing) := by
    have hcut := Chars.splitFirst?_append ['\x7b'] (a := []) (c := '$') List.not_mem_nil
      (name.toList ++ variableMarks.closing)
    rw [← hcut]
    simp [placeholder, variableMarks]
  unfold hasPlaceholders
  rw [String.toList_ofList, hopening]
  exact Chars.contains_iff.2 (List.infix_append' name.toList variableMarks.closing [])

end Template

/-- The expectation of a variable is the string form of its value. -/
theorem PathAssertion.resolved_equalling {ctx : Context} {path name text : String}
    (hname : '\x7d' ∉ name.toList) (htext : ctx.getString? name = some text) :
    (PathAssertion.equalling path name).resolved (some ctx) = .string text := by
  simp [resolved, equalling, Template.hasPlaceholders_placeholder,
    Template.interpolate_placeholder hname htext]

/-- **A value that was stored under a name is what its path is expected to lead to**
(`PathAssertion.equalling`), in every context in which the name has that value. -/
theorem check_equals_stored [Pattern.Engine] {document v : Json} {ctx : Context}
    {path name : String} (hname : '\x7d' ∉ name.toList)
    (hfind : ExtractionRule.find? document path = .ok (some v)) (hv : v ≠ .null)
    (hget : ctx.get? name = some v) :
    (PathAssertion.equalling path name).check document (some ctx) = .ok none := by
  have htext : ctx.getString? name = some v.stringForm := by
    rw [Context.getString?, hget, Option.map_some]
  refine check_equals_of_find? hfind ?_
  rw [PathAssertion.resolved_equalling hname htext]
  exact Json.looselyEqual_stringForm hv

/-! ## Applying one rule -/

section Storing

variable [Pattern.Engine] {body path target : String}

/-- A rule without a default yields what its path finds. -/
theorem yield?_storing (document : Json) :
    (ExtractionRule.storing path target).yield? (some document) =
      ExtractionRule.find? document path := by
  simp only [ExtractionRule.yield?, ExtractionRule.storing]
  rcases ExtractionRule.find? document path with e | _ | v <;> rfl

/-- What a rule yields (`yield?`) is written, with its origin. -/
theorem extract_of_yield? (ctx : Context) (step : String) {found : Option Json}
    (h : (ExtractionRule.storing path target).yield? (Json.parse body).toOption = .ok found) :
    extract ctx step [.storing path target] body =
      .ok (match found with
        | some v => ⟨ctx.set target v (some ⟨step, path⟩), 1⟩
        | none => ⟨ctx, 0⟩) := by
  have happly : Extracted.apply step (Json.parse body).toOption ⟨ctx, 0⟩
      (.storing path target) = _ := congrArg (Except.map _) h
  rw [extract, List.foldlM_cons, happly]
  cases found <;> rfl

/-- A rule that was applied to a body: either the path finds a value in the document, and the value
is written, or nothing is. -/
theorem extract_storing_cases (ctx : Context) (step : String)
    (h : ∀ document, Json.parse body = .ok document → ¬ PathTextBreaksOn path document) :
    (∃ document v, Json.parse body = .ok document ∧
      ExtractionRule.find? document path = .ok (some v) ∧
      extract ctx step [.storing path target] body =
        .ok ⟨ctx.set target v (some ⟨step, path⟩), 1⟩) ∨
    ((∀ document, Json.parse body = .ok document →
        ∀ v, ExtractionRule.find? document path ≠ .ok (some v)) ∧
      extract ctx step [.storing path target] body = .ok ⟨ctx, 0⟩) := by
  cases hbody : Json.parse body with
  | error fault =>
    have hyield : (ExtractionRule.storing path target).yield? (Json.parse body).toOption =
        .ok none := by
      rw [hbody]
      rfl
    exact Or.inr ⟨nofun, extract_of_yield? ctx step hyield⟩
  | ok document =>
    obtain ⟨found, hfind⟩ := exists_find? (h document hbody)
    have hyield : (ExtractionRule.storing path target).yield? (Json.parse body).toOption =
        .ok found := by
      rw [hbody, ← hfind, ← yield?_storing document]
      rfl
    have hx := extract_of_yield? ctx step hyield
    cases found with
    | none =>
      refine Or.inr ⟨?_, hx⟩
      intro document' hdocument v hv
      obtain rfl := Except.ok.inj hdocument
      rw [hfind] at hv
      cases hv
    | some v => exact Or.inl ⟨document, v, rfl, hfind, hx⟩

end Storing

/-- **What a rule stores, assertions on its path confirm.**  On a body in which the path can be
followed (not `PathTextBreaksOn`), a rule without a default (`ExtractionRule.storing`) writes its
variable, with its origin, or leaves the context alone; it writes exactly when the body is a
document in which the path exists (`PathAssertion.existing`); and if it wrote a value other than
null, the path leads to the value of the variable (`PathAssertion.equalling`), in whatever way
that is written. -/
theorem extract_confirmed [Pattern.Engine] (ctx : Context) (step body path target : String)
    (hname : '\x7d' ∉ target.toList)
    (hfollowed : ∀ document, Json.parse body = .ok document →
      ¬ PathTextBreaksOn path document) :
    ∃ x, extract ctx step [.storing path target] body = .ok x ∧
      (x = ⟨ctx, 0⟩ ∨ ∃ v, x = ⟨ctx.set target v (some ⟨step, path⟩), 1⟩) ∧
      (∀ expected seen, x.written = 1 ↔
        ∃ document, Json.parse body = .ok document ∧
          (PathAssertion.existing path expected).check document seen = .ok none) ∧
      ∀ v, x.written = 1 → x.context.get? target = some v → v ≠ .null →
        ∃ document, Json.parse body = .ok document ∧
          (PathAssertion.equalling path target).check document (some x.context) = .ok none := by
  rcases extract_storing_cases ctx step hfollowed with
    ⟨document, v, hbody, hfind, hx⟩ | ⟨hnothing, hx⟩
  · refine ⟨_, hx, Or.inr ⟨v, rfl⟩, ?_, ?_⟩
    · intro expected seen
      have hexists : ∃ w, ExtractionRule.find? document path = .ok (some w) := ⟨v, hfind⟩
      exact iff_of_true rfl ⟨document, hbody, check_exist_iff.2 hexists⟩
    · intro w _ hget hw
      have hwritten : (ctx.set target v (some ⟨step, path⟩)).get? target = some v := by simp
      obtain rfl := Option.some.inj (hwritten.symm.trans hget)
      exact ⟨document, hbody, check_equals_stored hname hfind hw hwritten⟩
  · refine ⟨_, hx, Or.inl rfl, ?_, fun _ hwritten => nomatch hwritten⟩
    intro expected seen
    refine iff_of_false (fun hwritten => nomatch hwritten) ?_
    rintro ⟨document, hbody, hcheck⟩
    obtain ⟨v, hv⟩ := check_exist_iff.1 hcheck
    exact hnothing document hbody v hv

namespace HostileBody

/-- A body with a text that looks like the end of a placeholder and the beginning of another. -/
def body : String := "\x7b\"a\": [\"\x7d$\x7bx\x7d \\\"\"]\x7d"

end HostileBody

/-- A text with placeholders and quotes in it is stored and confirmed. -/
theorem extract_confirmed_hostile :
    '\x7d' ∉ "$\x7bx".toList ∧
    (∀ document, Json.parse HostileBody.body = .ok document →
      ¬ PathTextBreaksOn "a[0]" document) ∧
    ∃ x, extract .empty "get" [.storing "a[0]" "$\x7bx"] HostileBody.body = .ok x ∧
      x.context.getString? "$\x7bx" = some "\x7d$\x7bx\x7d \"" ∧
      ∃ document, Json.parse HostileBody.body = .ok document ∧
        (PathAssertion.equalling "a[0]" "$\x7bx").check document (some x.context) = .ok none := by
  have hname : '\x7d' ∉ "$\x7bx".toList := by decide
  have hfollowed : ∀ document, Json.parse HostileBody.body = .ok document →
      ¬ PathTextBreaksOn "a[0]" document := by
    intro document _
    exact not_pathTextBreaksOn (by decide +kernel) document
  obtain ⟨x, hx, -, -, hconfirmed⟩ :=
    extract_confirmed .empty "get" HostileBody.body "a[0]" "$\x7bx" hname hfollowed
  have hwritten : ((extract .empty "get" [.storing "a[0]" "$\x7bx"] HostileBody.body).toOption.map
      fun x => (x.written, x.context.getString? "$\x7bx",
        (x.context.get? "$\x7bx").map Json.isNull)) =
        some (1, some "\x7d$\x7bx\x7d \"", some false) := by decide +kernel
  rw [hx] at hwritten
  simp only [Except.toOption, Option.map_some, Option.some.injEq, Prod.mk.injEq] at hwritten
  obtain ⟨hone, htext, hnull⟩ := hwritten
  obtain ⟨v, hget, hv⟩ := Option.map_eq_some_iff.1 hnull
  have hvalue : v ≠ .null := by
    rintro rfl
    cases hv
  exact ⟨hname, hfollowed, x, hx, htext, hconfirmed v hone hget hvalue⟩

end RestCase
