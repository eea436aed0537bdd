/-
# RestCase.Proofs.Pattern.Enclosing — reading a pattern that is enclosed

Every part of a pattern is read on the enclosed text as it is without: escapes, bracketed sets,
repetitions, groups and at last the alternatives (`follows_readEscape`, `follows_readSet`,
`follows_readRepetition`, `follows_readGroup`, `follows_readAlternatives`).  There is one lemma for
each reader, in the order in which the readers call each other, and for a reader with a bound on its
steps a second one that says that it comes to the same at the end of a text, whatever its bound.

What it means to be read alike is in `RestCase.Proofs.Pattern.Following`.
-/
import RestCase.Proofs.Pattern.Following

namespace RestCase.Pattern

open Reader

variable {α β : Type} {s t : List Char} {r : Reading}

/-! ## Escapes -/

theorem follows_readHexDigits (n value : Nat) (hr : r.rest <:+ s) :
    Follows s (readHexDigits n value) (readHexDigits n value) r := by
  induction n generalizing value r with
  | zero => exact .pure hr value
  | succ n ih =>
    refine .peek_bind (fun _ => .refused) fun c t h => .ite ?_ .refuse
    refine .bumpSkip_bind h (fun r' hr' => ?_) (.of_within fun _ => within_readHexDigits _ _)
    exact ih _ (hr'.trans (suffix_of_cons h hr))

theorem settled_readBracedHex (fuel fuel' count value : Nat) :
    Settled (readBracedHex fuel count value) (readBracedHex fuel' count value) := by
  refine .of_nil (fun _ => within_readBracedHex _ _ _) fun _ _ => ?_
  cases fuel <;> cases fuel' <;> rfl

theorem follows_readBracedHex {fuel fuel' : Nat} (count value : Nat) (hr : r.rest <:+ s)
    (h : r.rest.length < fuel) (h' : r.rest.length < fuel') :
    Follows s (readBracedHex fuel count value) (readBracedHex fuel' count value) r := by
  induction fuel generalizing fuel' count value r with
  | zero => omega
  | succ fuel ih =>
    obtain _ | fuel' := fuel'
    · omega
    refine .peek_bind (fun _ => .refused) fun c t hc => ?_
    have ht : t <:+ s := suffix_of_cons hc hr
    split
    · refine .bumpSkip_bind hc (fun r' hr' => ?_) (.of_within fun _ => .ite .refuse (.pure value))
      exact .ite .refuse (.pure (hr'.trans ht) value)
    · refine .ite (.bumpSkip_bind hc (fun r' hr' => ?_) (settled_readBracedHex _ _ _ _)) .refuse
      exact ih _ _ (hr'.trans ht) (length_lt_of_cons hc hr' h) (length_lt_of_cons hc hr' h')
    · exact .refuse

theorem follows_readCodeNumber (width : Nat) (hr : r.rest <:+ s) :
    Follows s (readCodeNumber width) (readCodeNumber width) r := by
  have hfixed := (follows_readHexDigits width 0 hr).map fun n => (n, width == 2)
  refine .peek_bind (fun _ => hfixed) fun c t hc => ?_
  have ht : t <:+ s := suffix_of_cons hc hr
  split
  · refine .bumpSkip_bind hc (fun r' hr' => .remaining_bind (.map ?_ _))
      (.of_within fun _ => .remaining_bind fun _ _ =>
        .bind (within_readBracedHex _ _ _) fun _ => .pure _)
    exact follows_readBracedHex _ _ (hr'.trans ht) (by omega)
      (by simp only [List.length_append]; omega)
  · exact hfixed

theorem follows_readCodePoint (width : Nat) (hr : r.rest <:+ s) :
    Follows s (readCodePoint width) (readCodePoint width) r :=
  .bind (follows_readCodeNumber width hr)
    (fun n _ h => .of_still (still_escapeOf n.1 n.2) h)
    fun n => .of_within fun _ => (still_escapeOf n.1 n.2).within

theorem settled_readName (fuel fuel' : Nat) (name : List Char) :
    Settled (readName fuel name) (readName fuel' name) := by
  refine .of_nil (fun _ => within_readName _ _) fun _ _ => ?_
  cases fuel <;> cases fuel' <;> rfl

theorem follows_readName {fuel fuel' : Nat} (name : List Char) (hr : r.rest <:+ s)
    (h : r.rest.length < fuel) (h' : r.rest.length < fuel') :
    Follows s (readName fuel name) (readName fuel' name) r := by
  induction fuel generalizing fuel' name r with
  | zero => omega
  | succ fuel ih =>
    obtain _ | fuel' := fuel'
    · omega
    refine .peek_bind (fun hnil => .of_bumpSkip hnil fun _ => within_readName _ _) fun c t hc => ?_
    have ht : t <:+ s := suffix_of_cons hc hr
    split
    · exact .bump_bind hc (.pure ht _)
    · refine .bumpSkip_bind hc (fun r' hr' => ?_) (settled_readName _ _ _)
      exact ih _ (hr'.trans ht) (length_lt_of_cons hc hr' h) (length_lt_of_cons hc hr' h')
    · exact .refuse

theorem follows_readPropertyText (hr : r.rest <:+ s) :
    Follows s readPropertyText readPropertyText r := by
  refine .peek_bind (fun hnil => .of_bumpSkip hnil fun _ => .pure _) fun c t hc => ?_
  have ht : t <:+ s := suffix_of_cons hc hr
  split
  · exact .refuse
  · exact .refuse
  · refine .bumpSkip_bind hc (fun r' hr' => .remaining_bind ?_)
      (.of_within fun _ => .remaining_bind fun _ _ => within_readName _ _)
    exact follows_readName _ (hr'.trans ht) (by omega) (by simp only [List.length_append]; omega)
  · exact .bumpSkip_bind hc (fun r' hr' => .pure (hr'.trans ht) _) (.of_within fun _ => .pure _)

theorem follows_readProperty [Engine] (negated : Bool) (hr : r.rest <:+ s) :
    Follows s (readProperty negated) (readProperty negated) r :=
  .bind (follows_readPropertyText hr)
    (fun name _ hr' => .of_still (still_property negated name) hr')
    fun name => .of_within fun _ => (still_property negated name).within

theorem settled_readEdgeName (fuel fuel' : Nat) (name : List Char) :
    Settled (readEdgeName fuel name) (readEdgeName fuel' name) := by
  refine .of_nil (fun _ => within_readEdgeName _ _) fun _ _ => ?_
  cases fuel <;> cases fuel' <;> rfl

theorem follows_readEdgeName {fuel fuel' : Nat} (name : List Char) (hr : r.rest <:+ s)
    (h : r.rest.length < fuel) (h' : r.rest.length < fuel') :
    Follows s (readEdgeName fuel name) (readEdgeName fuel' name) r := by
  induction fuel generalizing fuel' name r with
  | zero => omega
  | succ fuel ih =>
    obtain _ | fuel' := fuel'
    · omega
    refine .peek_bind (fun _ => .refused) fun c t hc => ?_
    have ht : t <:+ s := suffix_of_cons hc hr
    split
    · exact .bump_bind hc (.pure ht _)
    · refine .ite (.bumpSkip_bind hc (fun r' hr' => ?_) (settled_readEdgeName _ _ _)) .refuse
      exact ih _ (hr'.trans ht) (length_lt_of_cons hc hr' h) (length_lt_of_cons hc hr' h')
    · exact .refuse

theorem follows_readNamedEdge (ascii : Bool) {here : List Char} (hhere : here <:+ s)
    (hr : r.rest <:+ s) :
    Follows s (readNamedEdge ascii here) (readNamedEdge ascii (here ++ [')', '$'])) r := by
  refine .peek_bind (fun _ => .same hhere) fun c t hc => .ite ?_ (.goTo_bind (.pure hhere _))
  refine .remaining_bind (.bind (follows_readEdgeName _ hr (by omega) ?_) (fun name r' hr' => ?_)
    fun name => .of_within fun _ => ?_)
  · simp only [List.length_append]
    omega
  · split
    · exact .pure hr' _
    · exact .refuse
  · split
    · exact .pure _
    · exact .refuse

theorem follows_readWordEdge (hr : r.rest <:+ s) : Follows s readWordEdge readWordEdge r := by
  refine .flags_bind (.remaining_bind ?_)
  cases hrest : r.rest with
  | nil => exact .pure hr _
  | cons c t =>
    refine .ite ?_ (.pure hr _)
    -- going back undoes also what a comment took in, so that `bumpSkip_bind` says too little
    have hhere : c :: t <:+ s := hrest ▸ hr
    change Outcome s
      (readNamedEdge _ (c :: t) { r with rest := afterGaps r.flags (r.rest.drop 1) })
      (readNamedEdge _ (c :: t ++ [')', '$'])
        { r with rest := afterGaps r.flags ((r.rest ++ [')', '$']).drop 1) })
    rw [hrest]
    simp only [List.cons_append, List.drop_succ_cons, List.drop_zero]
    rcases afterGaps_append r.flags t with h | ⟨h, h'⟩
    · rw [h]
      exact follows_readNamedEdge (r := { r with rest := afterGaps r.flags t }) _ hhere
        ((afterGaps_suffix _ _).trans ((List.suffix_cons _ t).trans hhere))
    · rw [h, h']
      exact .same (r := { r with rest := c :: t }) hhere

theorem follows_readEscape [Engine] (hr : r.rest <:+ s) : Follows s readEscape readEscape r := by
  refine .peek_bind (fun hnil => ?_) fun c t hc => ?_
  · obtain ⟨f, names, rest⟩ := r
    cases hnil
    exact .overrun (x := Escape.char ')' false) (r := ⟨f, names, ['$']⟩) (List.suffix_refl _)
  have ht : t <:+ s := suffix_of_cons hc hr
  refine .ite .refuse (.ite ?_ (.ite ?_ (.ite ?_ ?_)))
  · exact .bumpSkip_bind hc (fun r' hr' => follows_readCodePoint _ (hr'.trans ht))
      (.of_within fun _ => within_readCodePoint _)
  · refine .bumpSkip_bind hc (fun r' hr' => ?_)
      (.of_within fun _ => .bind (within_readProperty _) fun _ => .pure _)
    exact (follows_readProperty _ (hr'.trans ht)).map _
  · exact .bump_bind hc (.still_bind (still_letterClass c) fun _ => .pure ht _)
  refine .bump_bind hc (.flags_bind (.ite (.pure ht _) ?_))
  split
  all_goals first
    | exact .pure ht _
    | exact (follows_readWordEdge ht).map _
    | exact .refuse

/-! ## Bracketed sets -/

theorem follows_readItem [Engine] {c : Char} (hc : r.rest = c :: t) :
    Follows t readItem readItem r := by
  refine .peek_bind (fun hnil => by rw [hc] at hnil; cases hnil) fun d t' hd => ?_
  obtain ⟨rfl, rfl⟩ := List.cons_eq_cons.1 (hc.symm.trans hd)
  split
  · exact .bump_bind hc (follows_readEscape (List.suffix_refl t))
  · exact .bump_bind hc (.pure (List.suffix_refl t) _)
  · exact .refuse

/-- The end of a range may be missing: then the enclosing parenthesis is taken for it. -/
theorem follows_readItem_of_suffix [Engine] (hr : r.rest <:+ s) :
    Follows s readItem readItem r := by
  cases hc : r.rest with
  | nil =>
    obtain ⟨f, names, rest⟩ := r
    cases hc
    exact .overrun (x := Escape.char ')' false) (r := ⟨f, names, ['$']⟩) (List.suffix_refl _)
  | cons c t => exact (follows_readItem hc).mono (suffix_of_cons hc hr)

theorem dropWhile_enclosed {p : Char → Bool} (hp : p ')' = false) (t : List Char) :
    (t ++ [')', '$']).dropWhile p = t.dropWhile p ++ [')', '$'] := by
  rw [List.dropWhile_append]
  split
  · next h => simp [List.isEmpty_iff.1 h, hp]
  · rfl

/-- The mark of a comment and blanks are passed in the text itself: `)` is neither. -/
theorem pastMark_enclosed (t : List Char) :
    pastMark (t ++ [')', '$']) = pastMark t ++ [')', '$'] := by
  unfold pastMark
  rw [dropWhile_enclosed (by decide)]
  cases t.dropWhile Chars.isBlank with
  | nil => rfl
  | cons d u =>
    by_cases hd : d = '#'
    · subst hd
      exact dropWhile_enclosed (by decide) u
    · rw [List.cons_append]
      split <;> simp_all

/-- Where nothing is left behind blanks and the mark of a comment, the text begins with either. -/
theorem blank_or_mark_of_pastMark {d : Char} {u : List Char} (h : pastMark (d :: u) = []) :
    Chars.isBlank d = true ∨ d = '#' := by
  by_contra hd
  obtain ⟨hblank, hmark⟩ := not_or.1 hd
  unfold pastMark at h
  rw [List.dropWhile_cons, if_neg hblank] at h
  split at h <;> simp_all

/-- What counts as the next character is looked for past blanks, and `)` is as good as nothing. -/
theorem nextUnder_enclosed {c : Char} (f : Flags) (t : List Char) (hblank : Chars.isBlank c = false)
    (hmark : c ≠ '#') (hc : c ≠ ')') :
    (nextUnder f (t ++ [')', '$']) == some c) = (nextUnder f t == some c) := by
  unfold nextUnder
  split
  · unfold glimpse
    rw [pastMark_enclosed]
    cases hpast : pastMark t with
    | cons d u => rfl
    | nil =>
      cases t with
      | nil => simpa using hc.symm
      | cons d u =>
        have hd : d ≠ c := by
          rintro rfl
          rcases blank_or_mark_of_pastMark hpast with h | h
          · exact absurd h (Bool.eq_false_iff.1 hblank)
          · exact hmark h
        simpa [hd] using hc.symm
  · cases t with
    | nil => simpa using hc.symm
    | cons d u => rfl

theorem follows_readRangeFrom [Engine] (first : Escape) (hr : r.rest <:+ s) :
    Follows s (readRangeFrom first) (readRangeFrom first) r := by
  refine .skip_bind hr (fun r' hr' => .remaining_bind (.flags_bind ?_)) fun r' hnil => ?_
  · cases hrest : r'.rest with
    | nil => exact .of_still (still_itemSet first) hr'
    | cons c t =>
      have ht : t <:+ s := suffix_of_cons hrest hr'
      simp only [List.cons_append, List.drop_succ_cons, List.drop_zero, List.head?_cons]
      rw [nextUnder_enclosed _ t (by decide) (by decide) (by decide),
        nextUnder_enclosed _ t (by decide) (by decide) (by decide)]
      refine .ite (.of_still (still_itemSet first) hr') ?_
      refine .bumpSkip_bind hrest (fun r'' hr'' => ?_)
        (.of_within fun _ => .bind within_readItem fun _ => (still_rangeSet _ _).within)
      exact .bind (follows_readItem_of_suffix (hr''.trans ht))
        (fun _ _ h => .of_still (still_rangeSet _ _) h) fun _ =>
          .of_within fun _ => (still_rangeSet _ _).within
  · obtain ⟨f, names, rest⟩ := r'
    cases hnil
    change Outcome s (itemSet first ⟨f, names, []⟩) (itemSet first ⟨f, names, []⟩)
    exact .of_swallowed (.of_within fun _ => (still_itemSet first).within) rfl

theorem follows_readRange [Engine] {c : Char} (hc : r.rest = c :: t) :
    Follows t readRange readRange r :=
  .bind (follows_readItem hc) (fun first _ h => follows_readRangeFrom first h) fun first =>
    .of_within fun _ => within_readRangeFrom first

theorem follows_readRange_of_suffix [Engine] (hr : r.rest <:+ s) :
    Follows s readRange readRange r :=
  .bind (follows_readItem_of_suffix hr) (fun first _ h => follows_readRangeFrom first h)
    fun first =>
    .of_within fun _ => within_readRangeFrom first

/-! ### Classes and operations -/

theorem setOp?_enclosed (t : List Char) : setOp? (t ++ [')', '$']) = setOp? t := by
  match t with
  | [] => rfl
  | [c] =>
    simp only [List.cons_append, List.nil_append]
    unfold setOp?
    split <;> simp_all
  | c :: d :: u =>
    simp only [List.cons_append]
    unfold setOp?
    split <;> simp_all

theorem takeWhile_append_of_dropWhile {p : Char → Bool} {u : List Char} {d : Char} (v : List Char)
    (h : t.dropWhile p = d :: u) : (t ++ v).takeWhile p = t.takeWhile p := by
  have hlength := congrArg List.length (List.takeWhile_append_dropWhile (p := p) (l := t))
  rw [List.length_append, h, List.length_cons] at hlength
  rw [List.takeWhile_append, if_neg (by omega)]

theorem classNamed?_enclosed (negated : Bool) (t : List Char) :
    classNamed? negated (t ++ [')', '$'])
      = (classNamed? negated t).map fun c => (c.1, c.2.1, c.2.2 ++ [')', '$']) := by
  unfold classNamed?
  match h : t.dropWhile (· != ':') with
  | [] => simp [List.dropWhile_append, h]
  | [d] =>
    rw [List.dropWhile_append, h]
    simp
  | d :: e :: u =>
    rw [List.dropWhile_append, h, takeWhile_append_of_dropWhile _ h]
    simp only [List.isEmpty_cons, Bool.false_eq_true, if_false, List.cons_append]
    by_cases hclosed : d = ':' ∧ e = ']'
    · obtain ⟨rfl, rfl⟩ := hclosed
      simp [Function.comp_def]
    · split <;> simp_all

theorem classIn?_eq_none {c d : Char} (h : ¬(c = '[' ∧ d = ':')) (u : List Char) :
    classIn? (c :: d :: u) = none := by
  unfold classIn?
  split <;> simp_all

/-- A class has its end in the text: what encloses the text closes none. -/
theorem classIn?_enclosed (t : List Char) :
    classIn? (t ++ [')', '$'])
      = (classIn? t).map fun c => (c.1, c.2.1, c.2.2 ++ [')', '$']) := by
  match t with
  | [] => rfl
  | [c] =>
    have hnone : classIn? [c] = none := by
      unfold classIn?
      split <;> simp_all
    rw [hnone]
    exact classIn?_eq_none (fun h => absurd h.2 (by decide)) _
  | c :: d :: u =>
    by_cases h : c = '[' ∧ d = ':'
    · obtain ⟨rfl, rfl⟩ := h
      cases u with
      | nil => exact classNamed?_enclosed false []
      | cons e u =>
        simp only [classIn?, List.cons_append, List.head?_cons, List.drop_succ_cons, List.drop_zero]
        split
        · exact classNamed?_enclosed true u
        · exact classNamed?_enclosed false (e :: u)
    · rw [classIn?_eq_none h, Option.map_none]
      exact classIn?_eq_none h _

theorem settled_readHyphens (fuel fuel' : Nat) (g : Gathered CharSet) :
    Settled (readHyphens fuel g) (readHyphens fuel' g) := by
  refine .of_nil (fun _ => within_readHyphens _ _) fun _ _ => ?_
  cases fuel <;> cases fuel' <;> rfl

theorem follows_readHyphens {fuel fuel' : Nat} (g : Gathered CharSet) (hr : r.rest <:+ s)
    (h : r.rest.length ≤ fuel) (h' : r.rest.length < fuel') :
    Follows s (readHyphens fuel g) (readHyphens fuel' g) r := by
  induction fuel generalizing fuel' g r with
  | zero =>
    obtain _ | fuel' := fuel'
    · omega
    have hnil : r.rest = [] := List.length_eq_zero_iff.1 (by omega)
    refine .peek_bind (f := fun _ => Pure.pure g) (fun _ => .same hr) fun c t hc => ?_
    rw [hnil] at hc
    cases hc
  | succ fuel ih =>
    obtain _ | fuel' := fuel'
    · omega
    refine .peek_bind (fun _ => .same hr) fun c t hc => ?_
    split
    · refine .bumpSkip_bind hc (fun r' hr' => ?_) (settled_readHyphens _ _ _)
      have hfewer := length_lt_of_cons hc hr' (Nat.lt_succ_of_le h)
      exact ih _ (hr'.trans (suffix_of_cons hc hr)) (by omega) (length_lt_of_cons hc hr' h')
    · exact .pure hr _

theorem follows_readNegation (hr : r.rest <:+ s) : Follows s readNegation readNegation r := by
  refine .peek_bind (fun _ => .same hr) fun c t hc => .ite ?_ (.pure hr _)
  refine .bumpSkip_bind hc (fun r' hr' => ?_) (.of_within fun _ => .pure _)
  exact .pure (hr'.trans (suffix_of_cons hc hr)) _

theorem follows_readLeading (hr : r.rest <:+ s) : Follows s readLeading readLeading r := by
  refine .remaining_bind
    (.bind (follows_readHyphens _ hr (Nat.le_refl _) (by simp)) ?_ fun g => ?_)
  · intro g r' hr'
    refine .peek_bind (fun _ => .same hr') fun c t hc => .ite ?_ (.pure hr' _)
    refine .bumpSkip_bind hc (fun r'' hr'' => ?_) (.of_within fun _ => .pure _)
    exact .pure (hr''.trans (suffix_of_cons hc hr')) _
  · exact .of_within fun _ => .peek_bind fun _ => .ite (.bind .bumpSkip fun _ => .pure _) (.pure _)

theorem follows_readSetStart (hr : r.rest <:+ s) : Follows s readSetStart readSetStart r := by
  refine .bind (follows_readNegation hr) (fun negated r' hr' => ?_) fun negated => ?_
  · exact (follows_readLeading hr').map _
  · exact .of_within fun _ => .bind within_readLeading fun _ => .pure _

/-! ### Whole sets -/

theorem settled_readSetRest [Engine] (fuel fuel' : Nat) (negated : Bool)
    (waiting : Option (SetOp × Nested CharSet)) (g : Gathered CharSet) :
    Settled (readSetRest fuel negated waiting g) (readSetRest fuel' negated waiting g) := by
  have hnil (fuel : Nat) (f : Flags) (names : List (List Char)) :
      readSetRest fuel negated waiting g ⟨f, names, []⟩ = none := by
    cases fuel with
    | zero => rfl
    | succ fuel =>
      obtain ⟨_, _, _, _, verbose, _⟩ := f
      cases verbose <;> rfl
  exact .of_nil (fun _ => within_readSetRest _ _ _ _) fun f names => (hnil ..).trans (hnil ..).symm

theorem follows_readSetRest [Engine] {fuel fuel' : Nat} (negated : Bool)
    (waiting : Option (SetOp × Nested CharSet)) (g : Gathered CharSet) (hr : r.rest <:+ s)
    (h : r.rest.length < fuel) (h' : r.rest.length < fuel') :
    Follows s (readSetRest fuel negated waiting g) (readSetRest fuel' negated waiting g) r := by
  induction fuel generalizing fuel' negated waiting g s r with
  | zero => omega
  | succ fuel ih =>
    obtain _ | fuel' := fuel'
    · omega
    unfold readSetRest
    refine .skip_bind (List.suffix_refl _) (fun r' hr' => .remaining_bind ?_) fun r' hnil => ?_
    · have hlength : r'.rest.length ≤ r.rest.length := hr'.length_le
      replace hr' : r'.rest <:+ s := hr'.trans hr
      rw [setOp?_enclosed]
      cases hrest : r'.rest with
      | nil =>
        obtain ⟨f, names, rest⟩ := r'
        cases hrest
        exact .refused_bind (m := readRange) (r := ⟨f, names, [')', '$']⟩)
          (follows_readRange_of_suffix (r := ⟨f, names, []⟩) (List.suffix_refl []))
          fun _ _ => within_readSetRest _ _ _ _
      | cons c u =>
        have hu : u <:+ s := suffix_of_cons hrest hr'
        have hstep {r'' : Reading} (hr'' : r''.rest <:+ u) (negated : Bool)
            (waiting : Option (SetOp × Nested CharSet)) (g : Gathered CharSet) :
            Follows u (readSetRest fuel negated waiting g)
              (readSetRest fuel' negated waiting g) r'' := by
          have := hr''.length_le
          rw [hrest, List.length_cons] at hlength
          exact ih _ _ _ hr'' (by omega) (by omega)
        refine Follows.mono ?_ hu
        split
        · next op hop =>
          obtain ⟨d, v, rfl⟩ := exists_cons_of_setOp? hop
          exact .goTo_bind (.flags_bind (hstep (List.suffix_cons d v) _ _ _))
        · simp only [List.cons_append, List.head?_cons]
          split
          · exact .refuse
          · exact .bump_bind hrest (.flags_bind (.flags_bind
              (.map (.of_still (still_complementIf _ _) (List.suffix_refl u)) _)))
          · rw [← List.cons_append, classIn?_enclosed]
            cases hclass : classIn? (c :: u) with
            | some found =>
              refine .goTo_bind (.flags_bind (.still_bind (still_complementIf _ _) fun _ => ?_))
              exact hstep (classIn?_suffix hclass) _ _ _
            | none =>
              -- a set in the set, and then what is left of the outer one
              have hinner (negated' : Bool) (inner : Gathered CharSet) := Settled.bind
                (settled_readSetRest fuel fuel' negated' none inner) fun found =>
                  settled_readSetRest fuel fuel' negated waiting (g.addSet found.value found.depth)
              refine .bumpSkip_bind hrest (fun r'' hr'' => ?_)
                (.bind (.of_within fun _ => within_readSetStart) fun p => hinner p.1 p.2)
              refine .bind (follows_readSetStart hr'') (fun p _ h => ?_) fun p => hinner p.1 p.2
              exact .bind (hstep h _ _ _) (fun _ _ h => hstep h _ _ _) fun _ =>
                settled_readSetRest _ _ _ _ _
          · exact .bind (follows_readRange hrest) (fun _ _ h => hstep h _ _ _) fun _ =>
              settled_readSetRest _ _ _ _ _
    · obtain ⟨f, names, rest⟩ := r'
      cases hnil
      exact .refused

theorem follows_readSet [Engine] {fuel fuel' : Nat} {c : Char} (hc : r.rest = c :: t)
    (h : t.length < fuel) (h' : t.length < fuel') : Follows t (readSet fuel) (readSet fuel') r := by
  have hsettled : Settled (readSetStart >>= fun p => readSetRest fuel p.1 none p.2)
      (readSetStart >>= fun p => readSetRest fuel' p.1 none p.2) :=
    .bind (.of_within fun _ => within_readSetStart) fun _ => settled_readSetRest _ _ _ _ _
  refine .bind (.expect_of_cons '[' hc) (fun _ r' hr' => ?_) fun _ => ?_
  · refine .skip_bind hr' (fun r'' hr'' => ?_) fun r'' hr'' => .of_swallowed hsettled hr''
    refine .bind (follows_readSetStart hr'') (fun p r₃ hr₃ => ?_) fun _ =>
      settled_readSetRest _ _ _ _ _
    have hlength := hr₃.length_le
    exact follows_readSetRest _ _ _ hr₃ (by omega) (by omega)
  · exact .bind (.of_within fun _ => .skip) fun _ => hsettled

/-! ## Repetitions -/

theorem Follows.passBlanks (hr : r.rest <:+ s) :
    Follows s Pattern.passBlanks Pattern.passBlanks r := by
  unfold Follows Pattern.passBlanks Reading.enclosed
  rw [dropWhile_enclosed (by decide)]
  exact .same ((List.dropWhile_suffix _).trans hr)

theorem settled_readDigits (fuel fuel' : Nat) : Settled (readDigits fuel) (readDigits fuel') := by
  refine .of_nil (fun _ => within_readDigits _) fun _ _ => ?_
  cases fuel <;> cases fuel' <;> rfl

theorem follows_readDigits {fuel fuel' : Nat} (hr : r.rest <:+ s) (h : r.rest.length < fuel)
    (h' : r.rest.length < fuel') : Follows s (readDigits fuel) (readDigits fuel') r := by
  induction fuel generalizing fuel' r with
  | zero => omega
  | succ fuel ih =>
    obtain _ | fuel' := fuel'
    · omega
    refine .peek_bind (fun _ => .same hr) fun c t hc => .ite ?_ (.pure hr _)
    have hsettled : Settled (readDigits fuel >>= fun digits => pure (c :: digits))
        (readDigits fuel' >>= fun digits => pure (c :: digits)) :=
      .bind (settled_readDigits _ _) fun _ => .of_within fun _ => .pure _
    refine .bumpSkip_bind hc (fun r' hr' => ?_) hsettled
    exact (ih (hr'.trans (suffix_of_cons hc hr)) (length_lt_of_cons hc hr' h)
      (length_lt_of_cons hc hr' h')).map _

theorem follows_countOf (digits : List Char) (hr : r.rest <:+ s) :
    Follows s (countOf digits) (countOf digits) r := by
  refine .bind (.passBlanks hr) (fun _ r' hr' => ?_) fun _ => .of_within fun _ => ?_
  · refine .skip_bind hr' (fun r'' hr'' => .ite .refuse (.pure hr'' _)) fun r'' hr'' => ?_
    exact .of_swallowed (.of_within fun _ => .ite .refuse (.pure _)) hr''
  · exact .bind .skip fun _ => .ite .refuse (.pure _)

theorem follows_readCount (hr : r.rest <:+ s) : Follows s readCount readCount r := by
  refine .bind (.passBlanks hr) (fun _ r' hr' => .remaining_bind ?_) fun _ => .of_within fun _ => ?_
  · refine .bind (follows_readDigits hr' (by omega) ?_) (fun _ _ h => follows_countOf _ h) fun _ =>
      .of_within fun _ => within_countOf _
    simp only [List.length_append]
    omega
  · exact .remaining_bind fun _ _ => .bind (within_readDigits _) fun digits => within_countOf digits

theorem follows_readMost (least : Nat) (hr : r.rest <:+ s) :
    Follows s (readMost least) (readMost least) r := by
  refine .bind (follows_readCount hr) (fun most r' hr' => ?_) fun most => .of_within fun _ => ?_
  · exact .bind (.expect _ hr') (fun _ _ h => .ite .refuse (.pure h _)) fun _ =>
      .of_within fun _ => .ite .refuse (.pure _)
  · exact .bind (.expect _) fun _ => .ite .refuse (.pure _)

theorem follows_readUpper (least : Nat) (hr : r.rest <:+ s) :
    Follows s (readUpper least) (readUpper least) r := by
  have hclose : Follows s (do expect '}'; return (least, some least))
      (do expect '}'; return (least, some least)) r :=
    (Follows.expect '}' hr).map _
  refine .peek_bind (fun _ => hclose) fun c t hc => ?_
  split
  · refine .bumpSkip_bind hc (fun r' hr' => ?_) (.of_within fun _ => .peek_bind fun _ =>
      .ite (.bind .bump fun _ => .pure _) (within_readMost least))
    replace hr' := hr'.trans (suffix_of_cons hc hr)
    refine .peek_bind (fun _ => follows_readMost least hr') fun d u hd => ?_
    exact .ite (.bump_bind hd (.pure (suffix_of_cons hd hr') _)) (follows_readMost least hr')
  · exact hclose

theorem follows_readBounds (hr : r.rest <:+ s) : Follows s readBounds readBounds r := by
  have hsettled : Settled (readCount >>= readUpper) (readCount >>= readUpper) :=
    .of_within fun _ => .bind within_readCount within_readUpper
  refine .skip_bind hr (fun r' hr' => ?_) fun r' hr' => .of_swallowed hsettled hr'
  exact .bind (follows_readCount hr') (fun least _ h => follows_readUpper least h) fun least =>
    .of_within fun _ => within_readUpper least

theorem follows_readTimes (c : Char) (hr : r.rest <:+ s) :
    Follows s (readTimes c) (readTimes c) r := by
  unfold readTimes
  split
  · exact .pure hr _
  · exact .pure hr _
  · exact .pure hr _
  · refine .bind (follows_readBounds hr) (fun bounds r' hr' => ?_) fun bounds =>
      .of_within fun _ => .bind .skip fun _ => .pure _
    exact .skip_bind hr' (fun r'' hr'' => .pure hr'' _) fun r'' hr'' =>
      .of_swallowed (.of_within fun _ => .pure _) hr''

theorem follows_passReluctance (hr : r.rest <:+ s) :
    Follows s passReluctance passReluctance r := by
  refine .peek_bind (fun _ => .same hr) fun c t hc => .ite ?_ (.pure hr _)
  exact (Follows.bump hc).mono (suffix_of_cons hc hr)

theorem follows_readRepetition (items : List Item) {c d : Char}
    (hd : r.rest = d :: t) : Follows t (readRepetition items c) (readRepetition items c) r := by
  unfold readRepetition
  split
  · refine .bump_bind hd (.bind (follows_readTimes c (List.suffix_refl t)) (fun _ r' hr' => ?_) ?_)
    · exact (follows_passReluctance hr').map _
    · exact fun _ => .of_within fun _ => .bind within_passReluctance fun _ => .pure _
  · exact .refuse

/-! ## Groups -/

theorem follows_readPrimitive [Engine] {c : Char} (hc : r.rest = c :: t) :
    Follows t readPrimitive readPrimitive r := by
  have ht := List.suffix_refl t
  refine .flags_bind (.peek_bind (fun hnil => by rw [hc] at hnil; cases hnil) fun d t' hd => ?_)
  obtain ⟨rfl, rfl⟩ := List.cons_eq_cons.1 (hc.symm.trans hd)
  split
  · exact .refuse
  · refine .bump_bind hc (.bind (follows_readEscape ht) (fun e _ h => ?_) fun e => ?_)
    · exact .of_still (still_escapePattern e) h
    · exact .of_within fun _ => (still_escapePattern e).within
  · exact .bump_bind hc (.ite .refuse (.ite (.pure ht _) (.ite (.pure ht _) (.pure ht _))))
  · exact .bump_bind hc (.pure ht _)
  · exact .bump_bind hc (.pure ht _)
  · exact .bump_bind hc (.of_still (still_escapePattern _) ht)

theorem follows_readGroupName [Engine] (hr : r.rest <:+ s) :
    Follows s readGroupName readGroupName r := by
  unfold Follows readGroupName Reading.enclosed
  simp only [List.dropWhile_append]
  cases h : r.rest.dropWhile (· != '>') with
  | nil => exact .refused
  | cons d u =>
    rw [takeWhile_append_of_dropWhile _ h]
    simp only [List.isEmpty_cons, Bool.false_eq_true, if_false, List.cons_append, Bool.not_false,
      Bool.true_and, List.drop_succ_cons, List.drop_zero]
    split
    · exact .same (((List.suffix_cons d u).trans (h ▸ List.dropWhile_suffix _)).trans hr)
    · exact .refused

theorem afterNameMark?_enclosed (t : List Char) :
    afterNameMark? (t ++ [')', '$']) = (afterNameMark? t).map (· ++ [')', '$']) := by
  match t with
  | [] => rfl
  | [c] =>
    simp only [List.cons_append, List.nil_append]
    unfold afterNameMark?
    split <;> simp_all
  | c :: d :: u =>
    simp only [List.cons_append]
    unfold afterNameMark?
    split <;> simp_all

/-- Flag letters up to the end of the text are closed by the enclosing parenthesis. -/
theorem follows_readFlagLetters (f : Flags) {here : List Char} (hhere : here <:+ s) :
    Follows s (readFlagLetters f here) (readFlagLetters f (here ++ [')', '$'])) r := by
  unfold readFlagLetters
  simp only [List.dropWhile_append]
  cases h : here.dropWhile (fun c => c != ':' && c != ')') with
  | nil =>
    cases f.change? true [] (here.takeWhile fun c => c != ':' && c != ')') <;>
      cases f.change? true [] ((here ++ [')', '$']).takeWhile fun c => c != ':' && c != ')') with
      | none => exact .refuse
      | some g =>
        exact .of_overrun (r := { r with rest := ['$'] })
          (fun _ => .ite .refuse (.pure (Opening.setting g))) (List.suffix_refl _)
  | cons d u =>
    have hu : u <:+ s := ((List.suffix_cons d u).trans (h ▸ List.dropWhile_suffix _)).trans hhere
    rw [takeWhile_append_of_dropWhile _ h]
    simp only [List.isEmpty_cons, Bool.false_eq_true, if_false, List.cons_append, List.head?_cons,
      List.drop_succ_cons, List.drop_zero]
    split
    · exact .goTo_bind (.pure hu _)
    · exact .goTo_bind (.ite .refuse (.pure hu _))
    · exact .refuse

theorem follows_readOpening [Engine] (hr : r.rest <:+ s) : Follows s readOpening readOpening r := by
  refine .skip_bind hr (fun r' hr' => .flags_bind (.remaining_bind ?_)) fun r' hr' => ?_
  · cases hrest : r'.rest with
    | nil => exact .pure hr' _
    | cons c t =>
      have ht : t <:+ s := suffix_of_cons hrest hr'
      simp only [List.cons_append, List.head?_cons, List.drop_succ_cons, List.drop_zero]
      refine .ite ?_ (.pure hr' _)
      rw [afterNameMark?_enclosed]
      cases hmark : afterNameMark? t with
      | none => exact follows_readFlagLetters _ ht
      | some u =>
        have hu : u <:+ s := (afterNameMark?_suffix hmark).trans ht
        exact .goTo_bind ((follows_readGroupName hu).map _)
  · obtain ⟨f, names, rest⟩ := r'
    cases hr'
    exact .swallowed rfl

/-! ## Patterns -/

theorem settled_readSequence [Engine] (fuel fuel' : Nat) (items : List Item) :
    Settled (readSequence (fuel + 1) items) (readSequence (fuel' + 1) items) := by
  refine .of_nil (fun _ => within_readSequence _ _) fun f _ => ?_
  obtain ⟨_, _, _, _, verbose, _⟩ := f
  cases verbose <;> rfl

theorem settled_readAlternatives [Engine] (fuel fuel' : Nat) :
    Settled (readAlternatives (fuel + 2)) (readAlternatives (fuel' + 2)) := by
  refine .of_nil (fun _ => within_readAlternatives _) fun f _ => ?_
  obtain ⟨_, _, _, _, verbose, _⟩ := f
  cases verbose <;> rfl

theorem settled_readOpened {body body' : Reader (Gathered Pattern)} (hbody : Settled body body')
    (o : Opening) :
    Settled (readOpened body o) (readOpened body' o) := by
  cases o with
  | setting f => exact .of_within fun _ => .bind (.setFlags f) fun _ => .pure _
  | group inside =>
    refine .bind (.of_within fun _ => .flags) fun outside => ?_
    refine .bind (.of_within fun _ => .setFlags inside) fun _ => .bind hbody fun p => ?_
    exact .of_within fun _ => .bind (.expect _) fun _ => .bind (.setFlags outside) fun _ =>
      .pure _

theorem follows_readOpened {body body' : Reader (Gathered Pattern)} (o : Opening)
    (hr : r.rest <:+ s) (hbody : ∀ f, Follows s body body' { r with flags := f }) :
    Follows s (readOpened body o) (readOpened body' o) r := by
  cases o with
  | setting f => exact .setFlags_bind (.pure (r := { r with flags := f }) hr _)
  | group inside =>
    refine .flags_bind (.setFlags_bind (.bind (hbody inside) (fun p r' hr' => ?_) fun p => ?_))
    · refine .bind (.expect ')' hr') (fun _ r'' h => .setFlags_bind ?_) fun _ =>
        .of_within fun _ => .bind (.setFlags _) fun _ => .pure _
      exact .pure (r := { r'' with flags := r.flags }) h _
    · exact .of_within fun _ => .bind (.expect _) fun _ => .bind (.setFlags _) fun _ =>
        .pure _

mutual
theorem follows_readAlternatives [Engine] {fuel fuel' : Nat} {s : List Char} {r : Reading}
    (hr : r.rest <:+ s) (h : 3 * r.rest.length + 2 ≤ fuel) (h' : 3 * r.rest.length + 2 ≤ fuel') :
    Follows s (readAlternatives fuel) (readAlternatives fuel') r := by
  match fuel, fuel' with
  | fuel + 1, fuel' + 1 =>
    unfold readAlternatives
    refine .bind (s := r.rest)
      (follows_readSequence [] (List.suffix_refl _) (by omega) (by omega)) (fun p r' hr' => ?_)
      fun p => .of_nil (fun _ => .peek_bind fun c => ?_) fun _ _ => rfl
    · have hlength := hr'.length_le
      replace hr' := hr'.trans hr
      refine .peek_bind (fun _ => .same hr') fun c t hc => ?_
      rw [hc, List.length_cons] at hlength
      have ht : t <:+ s := suffix_of_cons hc hr'
      split
      · refine .bump_bind hc (.map (follows_readAlternatives ht ?_ ?_) _)
        · exact Nat.le_trans (by simp only; omega) (Nat.le_of_succ_le_succ h)
        · exact Nat.le_trans (by simp only; omega) (Nat.le_of_succ_le_succ h')
      · exact .pure hr' _
    · split
      · exact .bind .bump fun _ => .bind (within_readAlternatives _) fun _ => .pure _
      · exact .pure _

theorem follows_readSequence [Engine] {fuel fuel' : Nat} (items : List Item) {s : List Char}
    {r : Reading} (hr : r.rest <:+ s) (h : 3 * r.rest.length + 1 ≤ fuel)
    (h' : 3 * r.rest.length + 1 ≤ fuel') :
    Follows s (readSequence fuel items) (readSequence fuel' items) r := by
  match fuel, fuel' with
  | fuel + 1, fuel' + 1 =>
    unfold readSequence
    refine .skip_bind (List.suffix_refl _) (fun r' hr' => ?_) fun r' hnil => ?_
    · have hlength := hr'.length_le
      replace hr' := hr'.trans hr
      refine .peek_bind (fun _ => .same hr') fun c t hc => ?_
      have ht : t <:+ s := suffix_of_cons hc hr'
      rw [hc, List.length_cons] at hlength
      obtain ⟨fuel, rfl⟩ := Nat.exists_eq_succ_of_ne_zero (show fuel ≠ 0 by omega)
      obtain ⟨fuel', rfl⟩ := Nat.exists_eq_succ_of_ne_zero (show fuel' ≠ 0 by omega)
      have hnext (items : List Item) (r'' : Reading) (hr'' : r''.rest <:+ t) :
          Follows s (readSequence (fuel + 1) items) (readSequence (fuel' + 1) items) r'' := by
        have := hr''.length_le
        exact follows_readSequence items (hr''.trans ht) (by omega) (by omega)
      split
      · exact .pure hr' _
      · exact .pure hr' _
      · exact .pure hr' _
      · refine .bind (follows_readGroup hc ?_ ?_) (fun item => hnext _) fun item =>
          settled_readSequence _ _ _
        · omega
        · omega
      · exact .bind (follows_readSet hc (by omega) (by omega)) (fun set => hnext _) fun set =>
          settled_readSequence _ _ _
      · refine .ite ?_ ?_
        · exact .bind (follows_readRepetition items hc) (fun items => hnext items) fun items =>
            settled_readSequence _ _ _
        · exact .bind (follows_readPrimitive hc) (fun p => hnext _) fun p =>
            settled_readSequence _ _ _
    · obtain ⟨f, names, rest⟩ := r'
      cases hnil
      exact .swallowed rfl

theorem follows_readGroup [Engine] {fuel fuel' : Nat} {c : Char} {t : List Char} {r : Reading}
    (hc : r.rest = c :: t) (h : 3 * t.length + 3 ≤ fuel) (h' : 3 * t.length + 3 ≤ fuel') :
    Follows t (readGroup fuel) (readGroup fuel') r := by
  match fuel, fuel' with
  | fuel + 3, fuel' + 3 =>
    unfold readGroup
    refine .bump_bind hc (.bind (follows_readOpening (List.suffix_refl t)) (fun o r' hr' => ?_)
      fun o => settled_readOpened (settled_readAlternatives fuel fuel') o)
    have := hr'.length_le
    exact follows_readOpened o hr' fun f =>
      follows_readAlternatives hr' (by simp only; omega) (by simp only; omega)
end

end RestCase.Pattern
