/-
# RestCase.Proofs.Extraction.LastWrite — the last rule that yields something

What a rule yields is said by the rule and the body alone (`ExtractionRule.yielded?`): what its path
finds, if that is not null; else its default; else null, if that was found.  Unless the path breaks
down, that is what the rule does yield (`yield?_eq_ok_yielded?`).

A rule that yields nothing neither stops the others nor takes anything away from them, and of
several rules that yield something for one variable the last one counts (`writeAll_last`).
`extract_last_yield` says what rules leave behind in every variable.
-/
import RestCase.Proofs.Extraction.Confirmation
import RestCase.Proofs.Run.Footprint

namespace RestCase

/-! ## What a rule yields -/

namespace ExtractionRule

variable [Pattern.Engine]

/-- What the path of the rule finds in a body (`ExtractionRule.find?`): nothing if the body is no
document, if the text is no path, or if the path leads nowhere. -/
def found? (rule : ExtractionRule) (body : String) : Option Json := do
  let document ← (Json.parse body).toOption
  let path ← (Path.parse rule.source).toOption
  let found ← (path.evaluate document).toOption
  found

/-- What the rule yields from a body: what its path finds (`found?`), unless that is null; else
its default, if it has one; else null, if that was found. -/
def yielded? (rule : ExtractionRule) (body : String) : Option Json :=
  (rule.found? body).filter (fun v => !v.isNull) <|> rule.defaultValue <|> rule.found? body

variable {rule : ExtractionRule} {body : String}

theorem found?_eq_of_find? {document : Json} {found : Option Json}
    (hbody : Json.parse body = .ok document) (h : find? document rule.source = .ok found) :
    rule.found? body = found := by
  unfold find? at h
  unfold found?
  rw [hbody]
  cases hpath : Path.parse rule.source with
  | error fault =>
    rw [hpath] at h
    obtain rfl := Except.ok.inj h
    rfl
  | ok path =>
    rw [hpath] at h
    have hevaluate : path.evaluate document = .ok found := h
    show (path.evaluate document).toOption.bind (fun found => found) = found
    rw [hevaluate]
    rfl

/-- **Unless its path breaks down, a rule yields what it is said to yield**: `yield?` gives
`yielded?`. -/
theorem yield?_eq_ok_yielded?
    (h : ∀ document, Json.parse body = .ok document → ¬ rule.BreaksOn document) :
    rule.yield? (Json.parse body).toOption = .ok (rule.yielded? body) := by
  cases hbody : Json.parse body with
  | error fault =>
    have hfound : rule.found? body = none := by
      unfold found?
      rw [hbody]
      rfl
    show Except.ok rule.defaultValue = _
    rw [yielded?, hfound]
    cases rule.defaultValue <;> rfl
  | ok document =>
    obtain ⟨found, hfind⟩ := exists_find? (h document hbody)
    show (find? document rule.source).map rule.valueOf? = _
    rw [hfind, yielded?, found?_eq_of_find? hbody hfind]
    apply congrArg Except.ok
    cases found with
    | none => cases hd : rule.defaultValue <;> simp [valueOf?, hd]
    | some v =>
      cases hv : v.isNull <;> cases hd : rule.defaultValue <;>
        simp [valueOf?, Option.filter_some, hv, hd]

end ExtractionRule

/-! ## The last write -/

/-- Of the members of a list that have a property, one is the last. -/
theorem exists_last_of_exists_mem {α : Type} {P : α → Prop} {l : List α} (h : ∃ x ∈ l, P x) :
    ∃ before x after, l = before ++ x :: after ∧ P x ∧ ∀ y ∈ after, ¬ P y := by
  induction l with
  | nil =>
    obtain ⟨x, hx, -⟩ := h
    cases hx
  | cons a l ih =>
    by_cases hrest : ∃ x ∈ l, P x
    · obtain ⟨before, x, after, rfl, hx, hafter⟩ := ih hrest
      exact ⟨a :: before, x, after, rfl, hx, hafter⟩
    · obtain ⟨x, hx, hP⟩ := h
      rcases List.mem_cons.1 hx with rfl | hx
      · exact ⟨[], x, l, rfl, hP, fun y hy hPy => hrest ⟨y, hy, hPy⟩⟩
      · exact absurd ⟨x, hx, hP⟩ hrest

namespace Context

theorem writeAll_append (ctx : Context) (ws ws' : List Write) :
    ctx.writeAll (ws ++ ws') = (ctx.writeAll ws).writeAll ws' :=
  List.foldl_append

variable {w : Write} {after : List Write}

/-- **The last write of a variable counts**: `writeAll` might as well make it after all others. -/
theorem writeAll_last (ctx : Context) (before : List Write) (h : ∀ x ∈ after, x.1 ≠ w.1) :
    ctx.writeAll (before ++ w :: after) =
      (ctx.writeAll (before ++ after)).set w.1 w.2.value (some w.2.origin) := by
  rw [writeAll_append, writeAll_cons, writeAll_set_comm _ h, ← writeAll_append]

theorem get?_writeAll_last (ctx : Context) (before : List Write) (h : ∀ x ∈ after, x.1 ≠ w.1) :
    (ctx.writeAll (before ++ w :: after)).get? w.1 = some w.2.value := by
  rw [writeAll_last ctx before h, get?_set, if_pos rfl]

theorem tracked?_writeAll_last (ctx : Context) (before : List Write)
    (h : ∀ x ∈ after, x.1 ≠ w.1) :
    (ctx.writeAll (before ++ w :: after)).tracked? w.1 = some w.2 := by
  rw [writeAll_last ctx before h, tracked?_set, if_pos rfl]
  rfl

end Context

/-! ## The writes of rules -/

/-- What a rule writes with a body, in the name of a step. -/
def ExtractionRule.write? [Pattern.Engine] (rule : ExtractionRule) (step body : String) :
    Option Write :=
  (rule.yielded? body).map fun v => (rule.target, ⟨v, step, rule.source⟩)

/-- What rules write that can all be followed. -/
theorem writesOf_eq_filterMap [Pattern.Engine] {step body : String} {rules : List ExtractionRule}
    (h : ∀ document, Json.parse body = .ok document →
      ∀ rule ∈ rules, ¬ rule.BreaksOn document) :
    writesOf step (Json.parse body).toOption rules =
      .ok (rules.filterMap fun rule => rule.write? step body) := by
  induction rules with
  | nil => rfl
  | cons rule rest ih =>
    have hrule : rule.yield? (Json.parse body).toOption = .ok (rule.yielded? body) :=
      rule.yield?_eq_ok_yielded? fun document hbody => h document hbody rule List.mem_cons_self
    have hrest := ih fun document hbody r hr => h document hbody r (List.mem_cons_of_mem rule hr)
    rw [writesOf, hrule, hrest, List.filterMap_cons]
    unfold ExtractionRule.write?
    cases rule.yielded? body <;> rfl

/-- The rules that write are those that yield something. -/
theorem length_filterMap_write? [Pattern.Engine] (step body : String)
    (rules : List ExtractionRule) :
    (rules.filterMap fun rule => rule.write? step body).length =
      rules.countP fun rule => (rule.yielded? body).isSome := by
  rw [List.length_filterMap_eq_countP]
  apply List.countP_congr
  intro rule _
  rw [ExtractionRule.write?, Option.isSome_map]

/-- The rule is the last of the list that yields something for a variable (`yielded?`), and this
is what it yields. -/
def LastYield [Pattern.Engine] (body : String) (rules : List ExtractionRule) (name : String)
    (rule : ExtractionRule) (v : Json) : Prop :=
  ∃ before after, rules = before ++ rule :: after ∧ rule.target = name ∧
    rule.yielded? body = some v ∧
      ∀ later ∈ after, later.target = name → later.yielded? body = none

section Writes

variable [Pattern.Engine] {step body name : String} {rules : List ExtractionRule}

theorem exists_lastYield
    (h : ∃ rule ∈ rules, rule.target = name ∧ (rule.yielded? body).isSome = true) :
    ∃ rule v, LastYield body rules name rule v := by
  obtain ⟨before, rule, after, hcut, ⟨htarget, hsome⟩, hafter⟩ := exists_last_of_exists_mem h
  obtain ⟨v, hv⟩ := Option.isSome_iff_exists.1 hsome
  refine ⟨rule, v, before, after, hcut, htarget, hv, ?_⟩
  intro later hlater hname
  rw [← Option.not_isSome_iff_eq_none]
  exact fun hyields => hafter later hlater ⟨hname, hyields⟩

/-- Where no rule yields anything for a variable, none is written. -/
theorem ne_of_mem_filterMap_write?
    (h : ∀ rule ∈ rules, rule.target = name → rule.yielded? body = none) :
    ∀ w ∈ rules.filterMap (fun rule => rule.write? step body), w.1 ≠ name := by
  intro w hw hname
  obtain ⟨rule, hrule, hwrite⟩ := List.mem_filterMap.1 hw
  obtain ⟨v, hv, rfl⟩ := Option.map_eq_some_iff.1 hwrite
  rw [h rule hrule hname] at hv
  cases hv

/-- **What rules leave behind in every variable.**  On a body in which all paths can be followed,
`extract` writes as many variables as rules yield something.  A variable for which a rule yields
something has what the last such rule yields (`LastYield`), with the step and the path of that
rule as its origin; every other variable is as it was. -/
theorem extract_last_yield (ctx : Context) (step body : String) (rules : List ExtractionRule)
    (h : ∀ document, Json.parse body = .ok document →
      ∀ rule ∈ rules, ¬ rule.BreaksOn document) :
    ∃ x, extract ctx step rules body = .ok x ∧
      x.written = rules.countP (fun rule => (rule.yielded? body).isSome) ∧
      (∀ name, (∃ rule ∈ rules, rule.target = name ∧ (rule.yielded? body).isSome = true) →
        ∃ rule v, LastYield body rules name rule v ∧ x.context.get? name = some v ∧
          x.context.tracked? name = some ⟨v, ⟨step, rule.source⟩⟩) ∧
      ∀ name, (∀ rule ∈ rules, rule.target = name → rule.yielded? body = none) →
        x.context.get? name = ctx.get? name ∧ x.context.tracked? name = ctx.tracked? name := by
  have hextract := extract_eq_writes ctx step rules body
  rw [writesOf_eq_filterMap h] at hextract
  refine ⟨_, hextract, length_filterMap_write? step body rules, ?_, ?_⟩
  · intro name hyields
    obtain ⟨rule, v, hlast⟩ := exists_lastYield hyields
    obtain ⟨before, after, rfl, rfl, hv, hafter⟩ := hlast
    have hwrite : rule.write? step body = some (rule.target, ⟨v, step, rule.source⟩) := by
      rw [ExtractionRule.write?, hv]
      rfl
    have hnone : ∀ w ∈ after.filterMap (fun rule => rule.write? step body), w.1 ≠ rule.target :=
      ne_of_mem_filterMap_write? hafter
    refine ⟨rule, v, ⟨before, after, rfl, rfl, hv, hafter⟩, ?_, ?_⟩
    · rw [List.filterMap_append, List.filterMap_cons, hwrite]
      exact Context.get?_writeAll_last ctx _ hnone
    · rw [List.filterMap_append, List.filterMap_cons, hwrite]
      exact Context.tracked?_writeAll_last ctx _ hnone
  · intro name hnone
    have hother : ∀ w ∈ rules.filterMap (fun rule => rule.write? step body), w.1 ≠ name :=
      ne_of_mem_filterMap_write? hnone
    exact ⟨ctx.get?_writeAll_of_ne hother, ctx.tracked?_writeAll_of_ne hother⟩

end Writes

namespace Rewritten

/-- A body with a number and a null. -/
def body : String := "\x7b\"a\": 1, \"n\": null\x7d"

/-- Rules that find a value, are no path, find null with a default and without one, and find
nothing. -/
def rules : List ExtractionRule :=
  [⟨"$.a", "x", none⟩, ⟨"$[", "x", none⟩, ⟨"$.n", "y", some (.int 5)⟩, ⟨"$.n", "x", none⟩,
    ⟨"$.b", "z", none⟩]

/-- Two variables that are there before. -/
def context : Context := (Context.empty.set "x" (.int 0) none).set "z" (.int 9) none

end Rewritten

/-- Of five rules three yield something; null from the last of them takes the place of the number
from the first, and the variable for which nothing is yielded stays. -/
theorem extract_last_yield_rewritten :
    (∀ document, Json.parse Rewritten.body = .ok document →
      ∀ rule ∈ Rewritten.rules, ¬ rule.BreaksOn document) ∧
    ∃ x, extract Rewritten.context "get" Rewritten.rules Rewritten.body = .ok x ∧
      x.written = 3 ∧
      (∃ rule v, LastYield Rewritten.body Rewritten.rules "x" rule v ∧
        x.context.get? "x" = some v ∧
        x.context.tracked? "x" = some ⟨v, ⟨"get", rule.source⟩⟩) ∧
      (x.context.tracked? "x").map (fun t => (t.value.stringForm, t.origin)) =
        some ("null", ⟨"get", "$.n"⟩) ∧
      x.context.get? "z" = Rewritten.context.get? "z" ∧
      x.context.tracked? "z" = Rewritten.context.tracked? "z" := by
  have h : ∀ document, Json.parse Rewritten.body = .ok document →
      ∀ rule ∈ Rewritten.rules, ¬ rule.BreaksOn document := by
    intro document _ rule hrule
    apply not_pathTextBreaksOn
    revert rule
    decide +kernel
  obtain ⟨x, hx, hwritten, hlast, hother⟩ :=
    extract_last_yield Rewritten.context "get" Rewritten.body Rewritten.rules h
  have hcount : Rewritten.rules.countP (fun rule => (rule.yielded? Rewritten.body).isSome) = 3 := by
    decide +kernel
  have hyields : ∃ rule ∈ Rewritten.rules, rule.target = "x" ∧
      (rule.yielded? Rewritten.body).isSome = true := by decide +kernel
  have hnone : ∀ rule ∈ Rewritten.rules, rule.target = "z" →
      rule.yielded? Rewritten.body = none := by
    intro rule hrule hname
    rw [← Option.not_isSome_iff_eq_none]
    revert rule
    decide +kernel
  have hseen : ((extract Rewritten.context "get" Rewritten.rules Rewritten.body).toOption.bind
      (·.context.tracked? "x")).map (fun t => (t.value.stringForm, t.origin)) =
        some ("null", ⟨"get", "$.n"⟩) := by decide +kernel
  rw [hx] at hseen
  exact ⟨h, x, hx, hwritten.trans hcount, hlast "x" hyields, hseen, hother "z" hnone⟩

end RestCase
