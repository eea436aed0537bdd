/-
# RestCase.Proofs.Report.Markup — the mark-up of a page

Whatever of a page comes from the results was escaped, or it is a number or one of a few words, so
all its angle brackets are those of the template.  In their order they are brackets of tags, each
opened and then closed, but for one that stands in the style sheet (`brackets_render`).  How many
tags there are depends on nothing but how often the template repeats its parts: the `Shape` of the
results (`hold_caseLines`, `count_brackets_render`).
-/
import Mathlib.Algebra.Ring.Nat
import RestCase.Report.Html

namespace RestCase.Report.Html

/-! ## Angle brackets -/

/-- The angle brackets of a text, in their order; `tags` is what they are for tags alone. -/
def brackets (s : String) : List Char := s.toList.filter fun c => c == '<' || c == '>'

/-- The angle brackets of a number of tags, each of which is closed before the next one opens. -/
def tags : Nat → List Char
  | 0 => []
  | n + 1 => '<' :: '>' :: tags n

theorem tags_add (m n : Nat) : tags (m + n) = tags m ++ tags n := by
  induction m with
  | zero => rw [Nat.zero_add, tags, List.nil_append]
  | succ m ih => rw [Nat.add_right_comm, tags, ih, tags, List.cons_append, List.cons_append]

theorem count_tags (n : Nat) : (tags n).count '<' = n ∧ (tags n).count '>' = n := by
  induction n with
  | zero => exact ⟨rfl, rfl⟩
  | succ n ih => simp [tags, ih]

theorem count_brackets (s : String) :
    (brackets s).count '<' = s.toList.count '<' ∧ (brackets s).count '>' = s.toList.count '>' :=
  ⟨List.count_filter rfl, List.count_filter rfl⟩

theorem brackets_eq_nil_iff {s : String} : brackets s = [] ↔ '<' ∉ s.toList ∧ '>' ∉ s.toList := by
  simp only [brackets, List.filter_eq_nil_iff, Bool.or_eq_true, beq_iff_eq, not_or]
  constructor
  · exact fun h => ⟨fun hmem => (h _ hmem).1 rfl, fun hmem => (h _ hmem).2 rfl⟩
  · rintro ⟨hopen, hclose⟩ c hc
    exact ⟨fun heq => hopen (heq ▸ hc), fun heq => hclose (heq ▸ hc)⟩

/-- The form in which the brackets of a line of the template are found: as a list of characters. -/
theorem brackets_ofList (s : List Char) :
    brackets (String.ofList s) = s.filter fun c => c == '<' || c == '>' := by
  rw [brackets, String.toList_ofList]

@[simp] theorem brackets_append (s t : String) : brackets (s ++ t) = brackets s ++ brackets t := by
  rw [brackets, String.toList_append, List.filter_append, brackets, brackets]

/-! ## Texts without angle brackets -/

@[simp] theorem brackets_escape (s : String) : brackets (escape s) = [] :=
  brackets_eq_nil_iff.2 ⟨lt_not_mem_escape s, gt_not_mem_escape s⟩

@[simp] theorem brackets_ofNat (n : Nat) : brackets (Text.ofNat n) = [] := by
  have hdigit : ∀ c, Chars.isDigit c = false → c ∉ (Text.ofNat n).toList := by
    intro c hc hmem
    rw [Text.ofNat, String.toList_ofList] at hmem
    rw [Chars.isDigit_of_mem_digits n c hmem] at hc
    cases hc
  exact brackets_eq_nil_iff.2 ⟨hdigit '<' (by decide), hdigit '>' (by decide)⟩

@[simp] theorem brackets_phase (phase : Phase) : brackets phase.name = [] := by
  cases phase <;> rfl

@[simp] theorem brackets_verdict (r : CaseResult) : brackets (verdict r) = [] := by
  unfold verdict
  split <;> rfl

@[simp] theorem brackets_responseStatus (r : CaseResult) : brackets (responseStatus r) = [] := by
  unfold responseStatus
  split
  · exact brackets_ofNat _
  · rfl

/-! ## Lines -/

/-- The lines have so many `tags` and no other angle brackets. -/
def Hold (lines : List String) (count : Nat) : Prop := lines.flatMap brackets = tags count

theorem Hold.append {lines lines' : List String} {m n : Nat} (h : Hold lines m)
    (h' : Hold lines' n) : Hold (lines ++ lines') (m + n) := by
  rw [Hold, List.flatMap_append, h, h', tags_add]

/-- A line that is repeated for each entry of a list. -/
theorem Hold.map {α : Type} {line : α → String} {k : Nat} (h : ∀ a, brackets (line a) = tags k)
    (l : List α) : Hold (l.map line) (k * l.length) := by
  induction l with
  | nil => rfl
  | cons a l ih =>
    rw [List.map_cons, Hold, List.flatMap_cons, h, ih, List.length_cons, Nat.mul_succ,
      Nat.add_comm, tags_add]

theorem brackets_unlines (lines : List String) :
    brackets (unlines lines) = lines.flatMap brackets := by
  have hend : brackets "\n" = [] := rfl
  induction lines with
  | nil => rfl
  | cons line lines ih =>
    have hunlines : unlines (line :: lines) = line ++ "\n" ++ unlines lines := String.join_cons
    rw [hunlines, brackets_append, brackets_append, hend, List.append_nil, ih, List.flatMap_cons]

/-! ## Parts of a page -/

/-- The brackets of the style sheet: one of them is no part of a tag. -/
theorem brackets_styleLines : styleLines.flatMap brackets = tags 1 ++ '>' :: tags 1 := by
  simp only [styleLines, List.flatMap_cons, List.flatMap_nil, brackets_append]
  repeat rw [brackets_ofList]
  rfl

theorem brackets_headLines (s : Summary) (generatedAt : Instant) :
    (headLines s generatedAt).flatMap brackets = tags 7 ++ '>' :: tags 33 := by
  simp only [headLines, List.flatMap_append, brackets_styleLines, List.flatMap_cons,
    List.flatMap_nil, brackets_append, brackets_escape, brackets_ofNat, List.append_nil]
  repeat rw [brackets_ofList]
  rfl

/-- Steps take two tags each; without a step, two tags stand in the place of those around them. -/
theorem hold_stepLines (r : CaseResult) : Hold (stepLines r) (8 + 2 * r.executed.length) := by
  have hstep : ∀ s : ExecutedStep,
      brackets ("        <li>[" ++ s.phase.name ++ "] " ++ escape s.label ++ "</li>") = tags 2 := by
    intro s
    simp only [brackets_append, brackets_phase, brackets_escape, List.append_nil]
    repeat rw [brackets_ofList]
    rfl
  have hhead : Hold ["    <div class='steps'>",
      "      <p><strong>Executed Steps (" ++ Text.ofNat r.executed.length ++ "):</strong></p>"]
      5 := by
    simp only [Hold, List.flatMap_cons, List.flatMap_nil, brackets_append, brackets_ofNat,
      List.append_nil]
    repeat rw [brackets_ofList]
    rfl
  have hnone : Hold ["      <p>No steps were executed.</p>"] 2 := rfl
  have hopen : Hold ["      <ol>"] 1 := rfl
  have hclose : Hold ["      </ol>"] 1 := rfl
  have hend : Hold ["    </div>"] 1 := rfl
  unfold stepLines
  split
  next hempty =>
    rw [List.isEmpty_iff.1 hempty] at hhead ⊢
    exact (hhead.append hnone).append hend
  next =>
    have hsteps := (hopen.append (.map hstep r.executed)).append hclose
    have hall := (hhead.append hsteps).append hend
    have hcount : 5 + (1 + 2 * r.executed.length + 1) + 1 = 8 + 2 * r.executed.length := by omega
    rw [hcount] at hall
    exact hall

/-- The number of tags of the variables of a case (`variableLines`). -/
def variableTags (count : Nat) : Nat := if count = 0 then 0 else 16 + 10 * count

theorem hold_variableLines (ctx : Context) : Hold (variableLines ctx) (variableTags ctx.size) := by
  have hrow : ∀ e, brackets (variableRow ctx e) = tags 10 := by
    intro e
    unfold variableRow
    simp only [brackets_append, brackets_escape, List.append_nil]
    repeat rw [brackets_ofList]
    rfl
  have hopen : Hold ["    <div class='variables'>",
      "      <p><strong>Variable Flow:</strong></p>",
      "      <table>",
      "        <tr><th>Variable</th><th>Value</th><th>Source</th></tr>"] 14 := by
    simp only [Hold, List.flatMap_cons, List.flatMap_nil]
    repeat rw [brackets_ofList]
    rfl
  have hclose : Hold ["      </table>", "    </div>"] 2 := rfl
  unfold variableLines variableTags Context.isEmpty Context.size Table.isEmpty Table.size
  split
  next hempty =>
    rw [List.isEmpty_iff.1 hempty]
    rfl
  next hsome =>
    have hlength : ctx.values.entries.length ≠ 0 := by simpa using hsome
    rw [if_neg hlength]
    have hall := (hopen.append (.map hrow ctx.values.entries)).append hclose
    have hcount : 14 + 10 * ctx.values.entries.length + 2 =
        16 + 10 * ctx.values.entries.length := by
      omega
    rw [hcount] at hall
    exact hall

/-- The number of tags of a list of messages (`messageLines`). -/
def messageTags (count : Nat) : Nat := if count = 0 then 0 else 8 + 2 * count

theorem hold_messageLines {kind title : String} (hkind : brackets kind = [])
    (htitle : brackets title = []) (messages : List String) :
    Hold (messageLines kind title messages) (messageTags messages.length) := by
  have hmessage : ∀ m, brackets ("        <li>" ++ escape m ++ "</li>") = tags 2 := by
    intro m
    simp only [brackets_append, brackets_escape, List.append_nil]
    repeat rw [brackets_ofList]
    rfl
  have hopen : Hold ["    <div class='" ++ kind ++ "'>",
      "      <p><strong>" ++ title ++ ":</strong></p>",
      "      <ul>"] 6 := by
    simp only [Hold, List.flatMap_cons, List.flatMap_nil, brackets_append, hkind, htitle,
      List.append_nil]
    repeat rw [brackets_ofList]
    rfl
  have hclose : Hold ["      </ul>", "    </div>"] 2 := rfl
  unfold messageLines messageTags
  split
  next hempty =>
    rw [List.isEmpty_iff.1 hempty]
    rfl
  next hsome =>
    have hlength : messages.length ≠ 0 := by simpa using hsome
    rw [if_neg hlength]
    have hall := (hopen.append (.map hmessage messages)).append hclose
    have hcount : 6 + 2 * messages.length + 2 = 8 + 2 * messages.length := by omega
    rw [hcount] at hall
    exact hall

/-! ## Shapes -/

/-- What counts of a result for the mark-up of its part of a page: `Shape.tagCount` is the number
of its tags. -/
structure Shape where
  described : Bool
  steps : Nat
  vars : Nat
  failures : Nat
  warnings : Nat
  deriving DecidableEq, Repr

namespace Shape

/-- The shape of a result; an empty description is like none. -/
def of (r : CaseResult) : Shape where
  described := r.description.any fun d => !d.isEmpty
  steps := r.executed.length
  vars := r.context.size
  failures := r.failures.length
  warnings := r.cleanupWarnings.length

/-- The number of tags of a case. -/
def tagCount (s : Shape) : Nat :=
  20 + (if s.described then 4 else 0) + 2 * s.steps + variableTags s.vars +
    messageTags s.failures + messageTags s.warnings

end Shape

theorem hold_descriptionLines (description : Option String) :
    Hold (descriptionLines description)
      (if description.any fun d => !d.isEmpty then 4 else 0) := by
  cases description with
  | none => rfl
  | some d =>
    rw [descriptionLines, Option.any_some]
    cases d.isEmpty with
    | true => rfl
    | false =>
      have hline : brackets ("    <p><strong>Description:</strong> " ++ escape d ++ "</p>")
          = tags 4 := by
        simp only [brackets_append, brackets_escape, List.append_nil]
        repeat rw [brackets_ofList]
        rfl
      simpa [Hold] using hline

/-- **The tags of a case** are as many as its `Shape` has, whatever its texts are: `escape` leaves
no bracket in them. -/
theorem hold_caseLines (number : Nat) (r : CaseResult) :
    Hold (caseLines number r) (Shape.of r).tagCount := by
  have hkind : brackets (if r.passed then "passed" else "failed") = [] := by split <;> rfl
  have hhead : Hold [
      "  <div class='test-case " ++ (if r.passed then "passed" else "failed") ++ "'>",
      "    <h3>" ++ Text.ofNat number ++ ". " ++ escape r.name ++ "</h3>",
      "    <p><span class='status " ++ (if r.passed then "passed" else "failed") ++ "'>" ++
        verdict r ++ "</span> (" ++ Text.ofNat r.duration ++ " ms)</p>"] 7 := by
    simp only [Hold, List.flatMap_cons, List.flatMap_nil, brackets_append, hkind, brackets_ofNat,
      brackets_escape, brackets_verdict, List.append_nil]
    repeat rw [brackets_ofList]
    rfl
  have hresponse : Hold ["    <p><strong>Response Status:</strong> " ++ responseStatus r ++ "</p>"]
      4 := by
    simp only [Hold, List.flatMap_cons, List.flatMap_nil, brackets_append, brackets_responseStatus,
      List.append_nil]
    repeat rw [brackets_ofList]
    rfl
  have hfailures : Hold (messageLines "failures" "Failure Reasons" r.failures)
      (messageTags r.failures.length) := hold_messageLines rfl rfl r.failures
  have hwarnings : Hold (messageLines "warnings" "Cleanup Warnings" r.cleanupWarnings)
      (messageTags r.cleanupWarnings.length) := hold_messageLines rfl rfl r.cleanupWarnings
  have hend : Hold ["  </div>"] 1 := rfl
  have hall := ((((((hhead.append (hold_descriptionLines r.description)).append
    (hold_stepLines r)).append (hold_variableLines r.context)).append hresponse).append
    hfailures).append hwarnings).append hend
  have hcount : (Shape.of r).tagCount =
      7 + (if r.description.any fun d => !d.isEmpty then 4 else 0) + (8 + 2 * r.executed.length) +
        variableTags r.context.size + 4 + messageTags r.failures.length +
        messageTags r.cleanupWarnings.length + 1 := by
    unfold Shape.tagCount Shape.of
    dsimp only
    omega
  rw [hcount]
  exact hall

theorem hold_caseLinesFrom (number : Nat) (results : List CaseResult) :
    Hold (caseLinesFrom number results) ((results.map Shape.of).map Shape.tagCount).sum := by
  induction results generalizing number with
  | nil => rfl
  | cons r rest ih => exact (hold_caseLines number r).append (ih (number + 1))

/-! ## Pages -/

/-- **All angle brackets of a page** (`render`), in their order: those of tags, and one of the
style sheet. -/
theorem brackets_render (results : List CaseResult) (generatedAt : Instant) :
    brackets (render results generatedAt) =
      tags 7 ++ '>' :: tags (35 + ((results.map Shape.of).map Shape.tagCount).sum) := by
  have hcases : (caseLinesFrom 1 results).flatMap brackets =
      tags ((results.map Shape.of).map Shape.tagCount).sum := hold_caseLinesFrom 1 results
  have hend : ["</body>", "</html>"].flatMap brackets = tags 2 := rfl
  rw [render, brackets_unlines, List.flatMap_append, List.flatMap_append, brackets_headLines,
    hcases, hend, List.append_assoc, List.append_assoc, List.cons_append, ← tags_add, ← tags_add]
  congr 3
  omega

/-- **No mark-up gets in.**  The numbers of angle brackets on a page (`Html.render`) are those
that the shapes of the results (`Shape.of`) give, whatever texts the results hold and whenever the
page is made: on the page of other results with these shapes the same brackets stand in the same
order. -/
theorem count_brackets_render (results : List CaseResult) (generatedAt : Instant) :
    (render results generatedAt).toList.count '<' =
        42 + ((results.map Shape.of).map Shape.tagCount).sum ∧
      (render results generatedAt).toList.count '>' =
        43 + ((results.map Shape.of).map Shape.tagCount).sum ∧
      ∀ (others : List CaseResult) (laterOn : Instant),
        others.map Shape.of = results.map Shape.of →
          brackets (render others laterOn) = brackets (render results generatedAt) := by
  obtain ⟨hopen, hclose⟩ := count_brackets (render results generatedAt)
  rw [← hopen, ← hclose, brackets_render]
  refine ⟨?_, ?_, fun others laterOn hshapes => ?_⟩
  · rw [List.count_append, List.count_cons_of_ne (by decide), (count_tags _).1, (count_tags _).1]
    omega
  · rw [List.count_append, List.count_cons_self, (count_tags _).2, (count_tags _).2]
    omega
  · rw [brackets_render, hshapes]

/-- A result whose texts are harmless. -/
def quietResult : CaseResult where
  name := "read"
  description := some "reads a user"
  passed := true
  failures := ["none"]
  cleanupWarnings := []
  executed := [⟨.execution, "get", .passed, 1, 3⟩]
  lastResponse := some ⟨200, [], "[]"⟩
  context := Context.empty.set "id" (.int 7) (some ⟨"get", "$.id"⟩)
  startedAt := .epoch
  finishedAt := .epoch
  duration := 3

/-- A result of the same shape, each text of which would be a tag. -/
def markedUpResult : CaseResult where
  name := "</h3><script>"
  description := some "<b>"
  passed := false
  failures := ["expected '<' but got '>'"]
  cleanupWarnings := []
  executed := [⟨.cleanup, "<li>", .failed, 3, 0⟩]
  lastResponse := none
  context := Context.empty.set "<td>" (.string "</table>") (some ⟨"<ol>", "$['>']"⟩)
  startedAt := .epoch
  finishedAt := .epoch
  duration := 0

/-- Texts full of tags put none on a page. -/
theorem count_brackets_render_markedUp :
    [markedUpResult].map Shape.of = [quietResult].map Shape.of ∧
      brackets (render [markedUpResult] ⟨19724, 11045, 0⟩) =
        brackets (render [quietResult] .epoch) ∧
      (render [quietResult] .epoch).toList.count '<' = 104 := by
  have hshapes : [markedUpResult].map Shape.of = [quietResult].map Shape.of := by decide +kernel
  obtain ⟨hopen, -, hsame⟩ := count_brackets_render [quietResult] .epoch
  exact ⟨hshapes, hsame _ _ hshapes, hopen⟩

end RestCase.Report.Html
