/-
# RestCase.Proofs.Pattern.Advancing — reading a pattern only moves forward

What a step of reading leaves is an end of what it was given.  This is said of a fixed text: a step
stays `Within` `s` when, begun on an end of `s`, it leaves an end of `s`.  In this form it composes
along `>>=` (`Within.bind`), also where a step looks at the text that is left and then goes to a
place in it (`Within.remaining_bind`).

There is one lemma for each reader, up to `within_readEscape`, `within_readSet` and
`within_readAlternatives`, with which whole patterns are read forward.
-/
import Mathlib.Tactic.Choose
import RestCase.Pattern.Reader

namespace RestCase.Pattern

open Reader

variable {α β : Type} {s : List Char}

/-- Begun on an end of `s`, the step leaves an end of `s`: no `Reader` goes back. -/
def Within (s : List Char) (R : Reader α) : Prop :=
  ∀ r x r', r.rest <:+ s → R r = some (x, r') → r'.rest <:+ s

/-! ## Steps in sequence -/

namespace Within

theorem done (x : α) : Within s (Reader.done x) := by
  rintro r x r' hr h
  cases h
  exact hr

theorem pure (x : α) : Within s (Pure.pure x : Reader α) := .done x

theorem refuse : Within s (Reader.refuse : Reader α) := by
  rintro r x r' hr h
  cases h

theorem flags : Within s Reader.flags := by
  rintro r x r' hr h
  cases h
  exact hr

theorem setFlags (f : Flags) : Within s (Reader.setFlags f) := by
  rintro r x r' hr h
  cases h
  exact hr

theorem goTo {t : List Char} (ht : t <:+ s) : Within s (Reader.goTo t) := by
  rintro r x r' hr h
  cases h
  exact ht

theorem bump : Within s Reader.bump := by
  rintro r x r' hr h
  cases h
  exact (List.drop_suffix 1 r.rest).trans hr

theorem expect (c : Char) : Within s (Reader.expect c) := by
  rintro r x r' hr h
  unfold Reader.expect at h
  split at h
  · next d rest hrest =>
    split at h
    · cases h
      exact (hrest ▸ List.suffix_cons d rest).trans hr
    · cases h
  · cases h

theorem bind {m : Reader α} {f : α → Reader β} (hm : Within s m) (hf : ∀ x, Within s (f x)) :
    Within s (m >>= f) := by
  intro r y r'' hr h
  obtain ⟨⟨x, r'⟩, hx, hy⟩ := Option.bind_eq_some_iff.1 h
  exact hf x r' y r'' (hm r x r' hr hx) hy

theorem ite {c : Prop} [Decidable c] {R R' : Reader α} (h : Within s R) (h' : Within s R') :
    Within s (if c then R else R') := by
  split
  · exact h
  · exact h'

theorem peek_bind {f : Option Char → Reader α} (hf : ∀ c, Within s (f c)) :
    Within s (peek >>= f) :=
  fun r => hf r.rest.head? r

/-- A step that looks at the text that is left knows that this is an end of `s`. -/
theorem remaining_bind {f : List Char → Reader α} (hf : ∀ t, t <:+ s → Within s (f t)) :
    Within s (remaining >>= f) :=
  fun r x r' hr h => hf r.rest hr r x r' hr h

end Within

/-! ## Gaps -/

theorem skipComments_suffix (inComment : Bool) (t : List Char) :
    skipComments inComment t <:+ t := by
  fun_induction skipComments inComment t with
  | case1 => exact List.suffix_refl _
  | case2 _ ih => exact ih.trans (List.suffix_cons _ _)
  | case3 _ _ _ ih => exact ih.trans (List.suffix_cons _ _)
  | case4 _ _ _ ih => exact ih.trans (List.suffix_cons _ _)
  | case5 _ _ ih => exact ih.trans (List.suffix_cons _ _)
  | case6 => exact List.suffix_refl _

theorem afterGaps_suffix (f : Flags) (t : List Char) : afterGaps f t <:+ t := by
  unfold afterGaps
  split
  · exact skipComments_suffix false t
  · exact List.suffix_refl t

theorem Within.skip : Within s Pattern.skip := by
  rintro r x r' hr h
  cases h
  exact (afterGaps_suffix _ _).trans hr

theorem Within.bumpSkip : Within s Pattern.bumpSkip := .bind .bump fun _ => .skip

/-! ## Steps that read the flags and nothing else -/

/-- The step passes over nothing, and what it gives depends on the flags only. -/
def Still (R : Reader α) : Prop :=
  ∃ g : Flags → Option α, ∀ r, R r = (g r.flags).map fun x => (x, r)

namespace Still

theorem done (x : α) : Still (Reader.done x) := ⟨fun _ => some x, fun _ => rfl⟩

theorem pure (x : α) : Still (Pure.pure x : Reader α) := .done x

theorem refuse : Still (Reader.refuse : Reader α) := ⟨fun _ => none, fun _ => rfl⟩

theorem flags : Still Reader.flags := ⟨some, fun _ => rfl⟩

theorem bind {m : Reader α} {f : α → Reader β} (hm : Still m) (hf : ∀ x, Still (f x)) :
    Still (m >>= f) := by
  obtain ⟨g, hg⟩ := hm
  choose k hk using hf
  refine ⟨fun fl => (g fl).bind fun x => k x fl, fun r => ?_⟩
  change (m r).bind (fun p => f p.1 p.2) = _
  rw [hg]
  cases hx : g r.flags with
  | none => simp [hx]
  | some x => simpa [hx] using hk x r

theorem ite {c : Prop} [Decidable c] {R R' : Reader α} (h : Still R) (h' : Still R') :
    Still (if c then R else R') := by
  split
  · exact h
  · exact h'

theorem within {R : Reader α} (h : Still R) : Within s R := by
  obtain ⟨g, hg⟩ := h
  intro r x r' hr hx
  rw [hg] at hx
  obtain ⟨_, _, ⟨⟩⟩ := Option.map_eq_some_iff.1 hx
  exact hr

end Still

theorem still_literal (c : Char) : Still (literal c) :=
  .bind .flags fun _ => .ite (.pure _) .refuse

theorem still_complementOf (t : CharSet) : Still (complementOf t) :=
  .bind .flags fun _ => .ite (.pure _) .refuse

theorem still_complementIf (negated : Bool) (t : CharSet) : Still (complementIf negated t) :=
  .ite (still_complementOf t) (.done t)

theorem still_letterClass (c : Char) : Still (letterClass c) := by
  refine .bind .flags fun f => ?_
  split <;> exact still_complementIf _ _

theorem still_itemSet (e : Escape) : Still (itemSet e) := by
  cases e with
  | char c byte => exact .bind .flags fun _ => .bind (still_literal c) fun _ => .pure _
  | set t => exact .done t
  | look l => exact .refuse

theorem still_rangeSet (a b : Escape) : Still (rangeSet a b) := by
  unfold rangeSet
  split
  · refine .bind (still_literal _) fun _ => .bind (still_literal _) fun _ => .ite ?_ .refuse
    exact .bind .flags fun _ => .pure _
  · exact .refuse

theorem still_escapePattern (e : Escape) : Still (escapePattern e) := by
  cases e with
  | char c byte => exact .bind .flags fun f => .ite (.pure _) (.ite .refuse (.pure _))
  | set t => exact .done _
  | look l => exact .done _

theorem still_escapeOf (n : Nat) (byte : Bool) : Still (escapeOf n byte) := by
  unfold escapeOf
  split
  · exact .done _
  · exact .refuse

/-! ## Escapes -/

theorem within_readHexDigits (n value : Nat) : Within s (readHexDigits n value) := by
  induction n generalizing value with
  | zero => exact .done value
  | succ n ih =>
    refine .peek_bind fun c => ?_
    split
    · split
      · exact .bind .bumpSkip fun _ => ih _
      · exact .refuse
    · exact .refuse

theorem within_readBracedHex (fuel count value : Nat) :
    Within s (readBracedHex fuel count value) := by
  induction fuel generalizing count value with
  | zero => exact .refuse
  | succ fuel ih =>
    refine .peek_bind fun c => ?_
    split
    · refine .bind .bumpSkip fun _ => ?_
      split
      · exact .refuse
      · exact .pure value
    · split
      · exact .bind .bumpSkip fun _ => ih _ _
      · exact .refuse
    · exact .refuse

theorem within_readCodePoint (width : Nat) : Within s (readCodePoint width) := by
  have hnumber : Within s (readCodeNumber width) := by
    refine .peek_bind fun c => ?_
    split
    · exact .bind .bumpSkip fun _ => .remaining_bind fun _ _ =>
        .bind (within_readBracedHex _ _ _) fun _ => .pure _
    · exact .bind (within_readHexDigits width 0) fun _ => .pure _
  exact .bind hnumber fun n => (still_escapeOf n.1 n.2).within

theorem within_readName (fuel : Nat) (name : List Char) : Within s (readName fuel name) := by
  induction fuel generalizing name with
  | zero => exact .refuse
  | succ fuel ih =>
    refine .peek_bind fun c => ?_
    split
    · exact .bind .bump fun _ => .pure _
    · exact .bind .bumpSkip fun _ => ih _
    · exact .refuse

theorem within_readPropertyText : Within s readPropertyText := by
  refine .peek_bind fun c => ?_
  split
  · exact .refuse
  · exact .refuse
  · exact .bind .bumpSkip fun _ => .remaining_bind fun _ _ => within_readName _ _
  · exact .bind .bumpSkip fun _ => .pure _

/-- What follows the text of a property reads the flags only. -/
theorem still_property [Engine] (negated : Bool) (name : List Char) :
    Still (do
      if !(← flags).unicode then refuse
      else match Characters.property? name with
        | none => refuse
        | some (t, opposite) => do
          let t := (← flags).adjust t
          return if negated != opposite then .complement t else t : Reader CharSet) := by
  refine .bind .flags fun f => .ite .refuse ?_
  split
  · exact .refuse
  · exact .bind .flags fun _ => .pure _

theorem within_readProperty [Engine] (negated : Bool) : Within s (readProperty negated) :=
  .bind within_readPropertyText fun name => (still_property negated name).within

theorem within_readEdgeName (fuel : Nat) (name : List Char) :
    Within s (readEdgeName fuel name) := by
  induction fuel generalizing name with
  | zero => exact .refuse
  | succ fuel ih =>
    refine .peek_bind fun c => ?_
    split
    · exact .bind .bump fun _ => .pure _
    · split
      · exact .bind .bumpSkip fun _ => ih _
      · exact .refuse
    · exact .refuse

theorem within_readNamedEdge (ascii : Bool) {here : List Char} (hhere : here <:+ s) :
    Within s (readNamedEdge ascii here) := by
  refine .peek_bind fun c => .ite ?_ (.bind (.goTo hhere) fun _ => .pure _)
  refine .remaining_bind fun _ _ => .bind (within_readEdgeName _ _) fun _ => ?_
  split
  · exact .pure _
  · exact .refuse

theorem within_readWordEdge : Within s readWordEdge := by
  refine .bind .flags fun f => .remaining_bind fun here hhere => .ite ?_ (.pure _)
  exact .bind .bumpSkip fun _ => within_readNamedEdge _ hhere

theorem within_readEscape [Engine] : Within s readEscape := by
  refine .peek_bind fun c => ?_
  split
  · exact .refuse
  next c =>
  split
  · exact .refuse
  split
  · exact .bind .bumpSkip fun _ => within_readCodePoint _
  split
  · exact .bind .bumpSkip fun _ => .bind (within_readProperty _) fun _ => .pure _
  split
  · exact .bind .bump fun _ => .bind (still_letterClass c).within fun _ => .pure _
  refine .bind .bump fun _ => .bind .flags fun f => ?_
  split
  · exact .pure _
  split
  all_goals first
    | exact .pure _
    | exact .bind within_readWordEdge fun _ => .pure _
    | exact .refuse

/-! ## Bracketed sets -/

theorem within_readItem [Engine] : Within s readItem := by
  refine .peek_bind fun c => ?_
  split
  · exact .bind .bump fun _ => within_readEscape
  · exact .bind .bump fun _ => .pure _
  · exact .refuse

theorem within_readRangeFrom [Engine] (first : Escape) : Within s (readRangeFrom first) := by
  refine .bind .skip fun _ => .remaining_bind fun t _ => .bind .flags fun f => ?_
  refine .ite (still_itemSet first).within ?_
  exact .bind .bumpSkip fun _ => .bind within_readItem fun _ => (still_rangeSet _ _).within

theorem within_readRange [Engine] : Within s readRange :=
  .bind within_readItem fun first => within_readRangeFrom first

theorem within_readHyphens (fuel : Nat) (g : Gathered CharSet) :
    Within s (readHyphens fuel g) := by
  induction fuel generalizing g with
  | zero => exact .done g
  | succ fuel ih =>
    refine .peek_bind fun c => ?_
    split
    · exact .bind .bumpSkip fun _ => ih _
    · exact .pure g

theorem within_readNegation : Within s readNegation :=
  .peek_bind fun _ => .ite (.bind .bumpSkip fun _ => .pure _) (.pure _)

theorem within_readLeading : Within s readLeading :=
  .remaining_bind fun _ _ => .bind (within_readHyphens _ _) fun _ => .peek_bind fun _ =>
    .ite (.bind .bumpSkip fun _ => .pure _) (.pure _)

theorem within_readSetStart : Within s readSetStart :=
  .bind within_readNegation fun _ => .bind within_readLeading fun _ => .pure _

theorem classNamed?_suffix {t rest : List Char} {set : CharSet} {negated opposite : Bool}
    (h : classNamed? negated t = some (set, opposite, rest)) : rest <:+ t := by
  unfold classNamed? at h
  split at h
  · next hcolon =>
    obtain ⟨_, _, ⟨⟩⟩ := Option.map_eq_some_iff.1 h
    have hsuffix : ':' :: ']' :: rest <:+ t := hcolon ▸ List.dropWhile_suffix _
    exact (List.suffix_append [':', ']'] rest).trans hsuffix
  · cases h

/-- A class is followed by an end of the text after its first bracket. -/
theorem classIn?_suffix {t rest : List Char} {set : CharSet} {negated : Bool}
    (h : classIn? t = some (set, negated, rest)) : rest <:+ t.drop 1 := by
  unfold classIn? at h
  split at h
  · next r =>
    have hr : r <:+ ':' :: r := List.suffix_cons ':' r
    split at h
    · exact ((classNamed?_suffix h).trans (List.drop_suffix 1 r)).trans hr
    · exact (classNamed?_suffix h).trans hr
  · cases h

/-- An operation between sets is written with two characters. -/
theorem exists_cons_of_setOp? {c : Char} {u : List Char} {op : SetOp}
    (h : setOp? (c :: u) = some op) : ∃ d v, u = d :: v := by
  unfold setOp? at h
  split at h <;> simp_all

theorem within_readSetRest [Engine] (fuel : Nat) (negated : Bool)
    (waiting : Option (SetOp × Nested CharSet)) (g : Gathered CharSet) :
    Within s (readSetRest fuel negated waiting g) := by
  induction fuel generalizing negated waiting g with
  | zero => exact .refuse
  | succ fuel ih =>
    unfold readSetRest
    refine .bind .skip fun _ => .remaining_bind fun here hhere => ?_
    split
    · exact .bind (.goTo ((List.drop_suffix 2 here).trans hhere)) fun _ => .bind .flags fun _ =>
        ih _ _ _
    split
    · exact .refuse
    · exact .bind .bump fun _ => .bind .flags fun _ => .bind .flags fun _ =>
        .bind (still_complementIf _ _).within fun _ => .pure _
    · split
      · next hclass =>
        have hrest := ((classIn?_suffix hclass).trans (List.drop_suffix 1 here)).trans hhere
        exact .bind (.goTo hrest) fun _ => .bind .flags fun _ =>
          .bind (still_complementIf _ _).within fun _ => ih _ _ _
      · exact .bind .bumpSkip fun _ => .bind within_readSetStart fun _ =>
          .bind (ih _ _ _) fun _ => ih _ _ _
    · exact .bind within_readRange fun _ => ih _ _ _

theorem within_readSet [Engine] (fuel : Nat) : Within s (readSet fuel) :=
  .bind (.expect _) fun _ => .bind .skip fun _ => .bind within_readSetStart fun _ =>
    within_readSetRest _ _ _ _

/-! ## Repetitions -/

theorem Within.passBlanks : Within s Pattern.passBlanks := by
  rintro r x r' hr h
  cases h
  exact (List.dropWhile_suffix _).trans hr

theorem within_readDigits (fuel : Nat) : Within s (readDigits fuel) := by
  induction fuel with
  | zero => exact .done _
  | succ fuel ih =>
    refine .peek_bind fun c => ?_
    split
    · exact .ite (.bind .bumpSkip fun _ => .bind ih fun _ => .pure _) (.pure _)
    · exact .pure _

theorem within_countOf (digits : List Char) : Within s (countOf digits) :=
  .bind .passBlanks fun _ => .bind .skip fun _ => .ite .refuse (.pure _)

theorem within_readCount : Within s readCount :=
  .bind .passBlanks fun _ => .remaining_bind fun _ _ =>
    .bind (within_readDigits _) fun digits => within_countOf digits

theorem within_readMost (least : Nat) : Within s (readMost least) :=
  .bind within_readCount fun _ => .bind (.expect _) fun _ => .ite .refuse (.pure _)

theorem within_readUpper (least : Nat) : Within s (readUpper least) := by
  refine .peek_bind fun c => ?_
  split
  · exact .bind .bumpSkip fun _ => .peek_bind fun c =>
      .ite (.bind .bump fun _ => .pure _) (within_readMost least)
  · exact .bind (.expect _) fun _ => .pure _

theorem within_readBounds : Within s readBounds :=
  .bind .skip fun _ => .bind within_readCount fun least => within_readUpper least

theorem within_readTimes (c : Char) : Within s (readTimes c) := by
  unfold readTimes
  split
  · exact .done _
  · exact .done _
  · exact .done _
  · exact .bind within_readBounds fun _ => .bind .skip fun _ => .pure _

theorem within_passReluctance : Within s passReluctance := by
  refine .peek_bind fun c => ?_
  split
  · exact .bump
  · exact .pure _

theorem within_readRepetition (items : List Item) (c : Char) :
    Within s (readRepetition items c) := by
  unfold readRepetition
  split
  · exact .bind .bump fun _ => .bind (within_readTimes c) fun _ =>
      .bind within_passReluctance fun _ => .pure _
  · exact .refuse

/-! ## Patterns -/

theorem within_readPrimitive [Engine] : Within s readPrimitive := by
  refine .bind .flags fun f => .peek_bind fun c => ?_
  split
  · exact .refuse
  · exact .bind .bump fun _ => .bind within_readEscape fun e => (still_escapePattern e).within
  · refine .bind .bump fun _ => ?_
    split
    · exact .refuse
    split
    · exact .pure _
    split <;> exact .pure _
  · exact .bind .bump fun _ => .pure _
  · exact .bind .bump fun _ => .pure _
  · exact .bind .bump fun _ => (still_escapePattern _).within

theorem within_readGroupName [Engine] : Within s readGroupName := by
  intro r x r' hr h
  unfold readGroupName at h
  extract_lets name closed at h
  split at h
  · cases h
    exact ((List.drop_suffix 1 closed).trans (List.dropWhile_suffix _)).trans hr
  · cases h

theorem afterNameMark?_suffix {t u : List Char} (h : afterNameMark? t = some u) : u <:+ t := by
  unfold afterNameMark? at h
  split at h
  · cases h
    exact List.suffix_append ['P', '<'] u
  · cases h
    exact List.suffix_cons '<' u
  · cases h

theorem within_readFlagLetters (f : Flags) {here : List Char} (hhere : here <:+ s) :
    Within s (readFlagLetters f here) := by
  unfold readFlagLetters
  extract_lets letters closed
  have hclosed : closed.drop 1 <:+ s :=
    ((List.drop_suffix 1 closed).trans (List.dropWhile_suffix _)).trans hhere
  split
  · exact .bind (.goTo hclosed) fun _ => .pure _
  · exact .bind (.goTo hclosed) fun _ => .ite .refuse (.pure _)
  · exact .refuse

theorem within_readOpening [Engine] : Within s readOpening := by
  refine .bind .skip fun _ => .bind .flags fun f => .remaining_bind fun here hhere => ?_
  refine .ite ?_ (.pure _)
  have hrest : here.drop 1 <:+ s := (List.drop_suffix 1 here).trans hhere
  split
  · next u hu =>
    exact .bind (.goTo ((afterNameMark?_suffix hu).trans hrest)) fun _ =>
      .bind within_readGroupName fun _ => .pure _
  · exact within_readFlagLetters f hrest

theorem within_readOpened {body : Reader (Gathered Pattern)} (hbody : Within s body) (o : Opening) :
    Within s (readOpened body o) := by
  cases o with
  | setting f => exact .bind (.setFlags f) fun _ => .pure _
  | group inside =>
    exact .bind .flags fun outside => .bind (.setFlags inside) fun _ => .bind hbody fun p =>
      .bind (.expect _) fun _ => .bind (.setFlags outside) fun _ => .pure _

mutual
theorem within_readAlternatives [Engine] (fuel : Nat) : Within s (readAlternatives fuel) := by
  cases fuel with
  | zero => exact .refuse
  | succ fuel =>
    unfold readAlternatives
    refine .bind (within_readSequence fuel []) fun p => .peek_bind fun c => ?_
    split
    · exact .bind .bump fun _ => .bind (within_readAlternatives fuel) fun _ => .pure _
    · exact .pure _

theorem within_readSequence [Engine] (fuel : Nat) (items : List Item) :
    Within s (readSequence fuel items) := by
  cases fuel with
  | zero => exact .refuse
  | succ fuel =>
    unfold readSequence
    refine .bind .skip fun _ => .peek_bind fun c => ?_
    split
    · exact .pure _
    · exact .pure _
    · exact .pure _
    · exact .bind (within_readGroup fuel) fun _ => within_readSequence fuel _
    · exact .bind (within_readSet fuel) fun _ => within_readSequence fuel _
    · split
      · exact .bind (within_readRepetition items _) fun _ => within_readSequence fuel _
      · exact .bind within_readPrimitive fun _ => within_readSequence fuel _

theorem within_readGroup [Engine] (fuel : Nat) : Within s (readGroup fuel) := by
  cases fuel with
  | zero => exact .refuse
  | succ fuel =>
    unfold readGroup
    exact .bind .bump fun _ => .bind within_readOpening fun o =>
      within_readOpened (within_readAlternatives fuel) o
end

end RestCase.Pattern
