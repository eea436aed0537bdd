/-
# RestCase.Proofs.Pattern.Following — steps of reading on a text that is enclosed

A pattern is put into a group by writing `)$` behind it.  Two runs of the reader are compared, one
on the text and one on the text with `)$` behind it, step by step (`Follows`).  While the first run
stays within the text, the second gives the same and leaves the same with `)$` behind it.  They part
in two ways only: a comment may take in what encloses the text, and then both are at their end
(`Follows.skip_bind`); or the first run finds the text to be no pattern, and the second goes on into
the `)$` (`Outcome.refused_bind`).

After they have parted they need not be compared any more: all that counts is that reading moves
forward, and that two steps agree at the end of a text (`Settled`).  The comparison composes along
`>>=` (`Follows.bind`).
-/
import RestCase.Proofs.Pattern.Advancing

namespace RestCase.Pattern

open Reader

variable {α β : Type} {s t : List Char} {r : Reading}

/-- The reading with `)$` behind the text that is left, as `enclosedText` puts it there. -/
def Reading.enclosed (r : Reading) : Reading := { r with rest := r.rest ++ [')', '$'] }

/-- What is left behind the next character was left before it. -/
theorem suffix_of_cons {c : Char} (hc : r.rest = c :: t) (hr : r.rest <:+ s) : t <:+ s :=
  (List.suffix_cons c t).trans (hc ▸ hr)

/-- Behind the next character a bound that is smaller by one is enough. -/
theorem length_lt_of_cons {c : Char} {r' : Reading} {fuel : Nat} (hc : r.rest = c :: t)
    (hr' : r'.rest <:+ t) (h : r.rest.length < fuel + 1) : r'.rest.length < fuel := by
  have hlength : r'.rest.length ≤ t.length := hr'.length_le
  rw [hc, List.length_cons] at h
  omega

/-- How what a step comes to on a text compares with what it comes to on the enclosed text
(`Reading.enclosed`). -/
inductive Outcome (s : List Char) : Option (α × Reading) → Option (α × Reading) → Prop
  /-- The step gives the same and does not come to the enclosing text. -/
  | same {x : α} {r : Reading} (h : r.rest <:+ s) : Outcome s (some (x, r)) (some (x, r.enclosed))
  /-- The step gives the same at the end of the text, and a comment takes in what encloses it. -/
  | swallowed {x : α} {r : Reading} (h : r.rest = []) : Outcome s (some (x, r)) (some (x, r))
  /-- The step finds neither text to be a pattern. -/
  | refused : Outcome s none none
  /-- The step finds the text to be no pattern, and takes in the enclosing parenthesis. -/
  | overrun {x : α} {r : Reading} (h : r.rest <:+ ['$']) : Outcome s none (some (x, r))

/-- The step `R'` on the enclosed text follows the step `R` on the text. -/
def Follows (s : List Char) (R R' : Reader α) (r : Reading) : Prop :=
  Outcome s (R r) (R' r.enclosed)

/-- Two steps that agree at the end of a text, the second of them moving forward only. -/
structure Settled (R R' : Reader α) : Prop where
  within : ∀ s, Within s R'
  atEnd : ∀ r, r.rest = [] → R r = R' r

theorem Settled.of_within {R : Reader α} (h : ∀ s, Within s R) : Settled R R :=
  ⟨h, fun _ _ => rfl⟩

theorem Settled.of_nil {R R' : Reader α} (h : ∀ s, Within s R')
    (hnil : ∀ f names, R ⟨f, names, []⟩ = R' ⟨f, names, []⟩) : Settled R R' :=
  ⟨h, fun ⟨f, names, _⟩ hr => by cases hr; exact hnil f names⟩

theorem Settled.bind {m m' : Reader α} {f f' : α → Reader β} (hm : Settled m m')
    (hf : ∀ x, Settled (f x) (f' x)) : Settled (m >>= f) (m' >>= f') := by
  refine ⟨fun s => .bind (hm.within s) fun x => (hf x).within s, fun r hr => ?_⟩
  change (m r).bind (fun p => f p.1 p.2) = (m' r).bind fun p => f' p.1 p.2
  rw [hm.atEnd r hr]
  refine Option.bind_congr fun ⟨x, r'⟩ hx => (hf x).atEnd r' (List.suffix_nil.1 ?_)
  exact hm.within [] r x r' (hr ▸ List.suffix_refl _) hx

namespace Outcome

theorem mono {o o' : Option (α × Reading)} (h : Outcome s o o') (hst : s <:+ t) :
    Outcome t o o' := by
  cases h with
  | same h => exact .same (h.trans hst)
  | swallowed h => exact .swallowed h
  | refused => exact .refused
  | overrun h => exact .overrun h

/-- A step that refuses the text and is begun behind the parenthesis on the enclosed text. -/
theorem of_overrun {R : Reader α} (hR : ∀ s, Within s R) (h : r.rest <:+ ['$']) :
    Outcome s none (R r) := by
  cases hx : R r with
  | none => exact .refused
  | some p => exact .overrun (hR _ r p.1 p.2 h hx)

theorem of_swallowed {R R' : Reader α} (hR : Settled R R') (h : r.rest = []) :
    Outcome s (R r) (R' r) := by
  rw [hR.atEnd r h]
  cases hx : R' r with
  | none => exact .refused
  | some p =>
    exact .swallowed (List.suffix_nil.1 (hR.within [] r p.1 p.2 (h ▸ List.suffix_refl _) hx))

end Outcome

namespace Follows

theorem mono {R R' : Reader α} (h : Follows s R R' r) (hst : s <:+ t) : Follows t R R' r :=
  Outcome.mono h hst

theorem pure (hr : r.rest <:+ s) (x : α) :
    Follows s (Pure.pure x : Reader α) (Pure.pure x : Reader α) r := .same hr

theorem refuse : Follows s (Reader.refuse : Reader α) Reader.refuse r := .refused

theorem ite {c : Prop} [Decidable c] {R R' S S' : Reader α} (h : Follows s R R' r)
    (h' : Follows s S S' r) : Follows s (if c then R else S) (if c then R' else S') r := by
  split
  · exact h
  · exact h'

theorem of_still {R : Reader α} (hR : Still R) (hr : r.rest <:+ s) : Follows s R R r := by
  obtain ⟨g, hg⟩ := hR
  unfold Follows
  rw [hg, hg]
  change Outcome s _ ((g r.flags).map _)
  cases g r.flags with
  | none => exact .refused
  | some x => exact .same hr

/-! ### Steps in sequence -/

theorem bind {m m' : Reader α} {f f' : α → Reader β} (hm : Follows s m m' r)
    (hf : ∀ x r', r'.rest <:+ s → Follows t (f x) (f' x) r') (hs : ∀ x, Settled (f x) (f' x)) :
    Follows t (m >>= f) (m' >>= f') r := by
  change Outcome t ((m r).bind fun p => f p.1 p.2) ((m' r.enclosed).bind fun p => f' p.1 p.2)
  unfold Follows at hm
  generalize m r = o, m' r.enclosed = o' at hm ⊢
  cases hm with
  | same h => exact hf _ _ h
  | swallowed h => exact .of_swallowed (hs _) h
  | refused => exact .refused
  | overrun h => exact .of_overrun (hs _).within h

/-- What is made of the result of a step reads nothing any more. -/
theorem map {m m' : Reader α} (hm : Follows s m m' r) (g : α → β) :
    Follows s (m >>= fun x => Pure.pure (g x)) (m' >>= fun x => Pure.pure (g x)) r :=
  hm.bind (fun x _ h => .pure h (g x)) fun x => .of_within fun _ => .pure (g x)

/-- After a step that reads the flags only, no comment is open and no text was taken in. -/
theorem still_bind {m : Reader α} {f f' : α → Reader β} (hm : Still m)
    (hf : ∀ x, Follows t (f x) (f' x) r) : Follows t (m >>= f) (m >>= f') r := by
  obtain ⟨g, hg⟩ := hm
  change Outcome t ((m r).bind fun p => f p.1 p.2) ((m r.enclosed).bind fun p => f' p.1 p.2)
  rw [hg, hg]
  change Outcome t _ (((g r.flags).map _).bind _)
  cases g r.flags with
  | none => exact .refused
  | some x => exact hf x

theorem flags_bind {f f' : Flags → Reader α} (h : Follows s (f r.flags) (f' r.flags) r) :
    Follows s (flags >>= f) (flags >>= f') r := h

theorem remaining_bind {f f' : List Char → Reader α}
    (h : Follows s (f r.rest) (f' (r.rest ++ [')', '$'])) r) :
    Follows s (remaining >>= f) (remaining >>= f') r := h

theorem peek_bind {f f' : Option Char → Reader α}
    (hnil : r.rest = [] → Outcome s (f none r) (f' (some ')') r.enclosed))
    (hcons : ∀ c t, r.rest = c :: t → Follows s (f (some c)) (f' (some c)) r) :
    Follows s (peek >>= f) (peek >>= f') r := by
  change Outcome s (f r.rest.head? r) (f' (r.rest ++ [')', '$']).head? r.enclosed)
  cases h : r.rest with
  | nil => exact hnil h
  | cons c t => exact hcons c t h

theorem goTo_bind {f f' : Unit → Reader α} (h : Follows s (f ()) (f' ()) { r with rest := t }) :
    Follows s (goTo t >>= f) (goTo (t ++ [')', '$']) >>= f') r := h

theorem setFlags_bind {f f' : Unit → Reader α} {g : Flags}
    (h : Follows s (f ()) (f' ()) { r with flags := g }) :
    Follows s (setFlags g >>= f) (setFlags g >>= f') r := h

theorem bump_bind {c : Char} {f f' : Unit → Reader α} (hc : r.rest = c :: t)
    (h : Follows s (f ()) (f' ()) { r with rest := t }) :
    Follows s (bump >>= f) (bump >>= f') r := by
  change Outcome s (f () { r with rest := r.rest.drop 1 })
    (f' () { r with rest := (r.rest ++ [')', '$']).drop 1 })
  rw [hc]
  exact h

theorem bump {c : Char} (hc : r.rest = c :: t) : Follows t Reader.bump Reader.bump r := by
  unfold Follows Reader.bump Reading.enclosed
  rw [hc]
  exact .same (List.suffix_refl t)

theorem expect_of_cons {d : Char} (c : Char) (hd : r.rest = d :: t) :
    Follows t (Reader.expect c) (Reader.expect c) r := by
  unfold Follows Reader.expect Reading.enclosed
  simp only [hd, List.cons_append]
  split
  · exact .same (List.suffix_refl t)
  · exact .refused

theorem expect (c : Char) (hr : r.rest <:+ s) :
    Follows s (Reader.expect c) (Reader.expect c) r := by
  cases h : r.rest with
  | nil =>
    unfold Follows Reader.expect Reading.enclosed
    simp only [h, List.nil_append]
    split
    · exact .overrun (List.suffix_refl _)
    · exact .refused
  | cons d t => exact (expect_of_cons c h).mono (suffix_of_cons h hr)

end Follows

/-- Where the text was refused, nothing is read of it on the enclosed text any more. -/
theorem Outcome.refused_bind {m : Reader α} {f : α → Reader β} {r : Reading}
    (hm : Outcome s none (m r)) (hf : ∀ x s, Within s (f x)) : Outcome t none ((m >>= f) r) := by
  change Outcome t none ((m r).bind fun p => f p.1 p.2)
  generalize m r = o at hm ⊢
  cases hm with
  | refused => exact .refused
  | overrun h => exact .of_overrun (hf _) h

/-- What has passed over the enclosing parenthesis goes on behind it. -/
theorem Outcome.of_bump {f : Unit → Reader α} (hr : r.rest = []) (hf : ∀ s, Within s (f ())) :
    Outcome s none ((bump >>= f) r.enclosed) := by
  refine .of_overrun (R := f ()) (r := { r with rest := (r.rest ++ [')', '$']).drop 1 }) hf ?_
  rw [hr]
  exact List.suffix_refl _

/-! ## Gaps -/

/-- A comment takes in what encloses the text, or skipping stops as it does without. -/
theorem skipComments_append (inComment : Bool) (t : List Char) :
    skipComments inComment (t ++ [')', '$']) = skipComments inComment t ++ [')', '$']
      ∨ skipComments inComment (t ++ [')', '$']) = [] ∧ skipComments inComment t = [] := by
  fun_induction skipComments inComment t with
  | case1 b => cases b <;> decide
  | case2 r ih => simpa [skipComments] using ih
  | case3 c r h ih => simpa [skipComments, h] using ih
  | case4 c r h ih => simpa [skipComments, h] using ih
  | case5 r h ih => simpa [skipComments, h] using ih
  | case6 c r h h' => simp [skipComments, h, h']

theorem afterGaps_append (f : Flags) (t : List Char) :
    afterGaps f (t ++ [')', '$']) = afterGaps f t ++ [')', '$']
      ∨ afterGaps f (t ++ [')', '$']) = [] ∧ afterGaps f t = [] := by
  unfold afterGaps
  split
  · exact skipComments_append false t
  · exact .inl rfl

namespace Follows

/-- After skipping either the texts still compare, or both have come to an end. -/
theorem skip_bind {f f' : Unit → Reader α} (hr : r.rest <:+ s)
    (hf : ∀ r', r'.rest <:+ s → Follows t (f ()) (f' ()) r')
    (hend : ∀ r', r'.rest = [] → Outcome t (f () r') (f' () r')) :
    Follows t (skip >>= f) (skip >>= f') r := by
  change Outcome t (f () { r with rest := afterGaps r.flags r.rest })
    (f' () { r with rest := afterGaps r.flags (r.rest ++ [')', '$']) })
  rcases afterGaps_append r.flags r.rest with h | ⟨h, h'⟩
  · rw [h]
    exact hf { r with rest := afterGaps r.flags r.rest } ((afterGaps_suffix _ _).trans hr)
  · rw [h, h']
    exact hend _ rfl

/-- Behind a character and the gaps after it, steps that settle go on as they do on the text. -/
theorem bumpSkip_bind {c : Char} {f f' : Unit → Reader α} (hc : r.rest = c :: t)
    (hf : ∀ r', r'.rest <:+ t → Follows s (f ()) (f' ()) r') (hs : Settled (f ()) (f' ())) :
    Follows s (bumpSkip >>= f) (bumpSkip >>= f') r := by
  change Follows s (Reader.bump >>= fun _ => skip >>= f) (Reader.bump >>= fun _ => skip >>= f') r
  refine bump_bind hc (skip_bind (r := { r with rest := t }) (List.suffix_refl t) hf ?_)
  exact fun _ hr' => .of_swallowed hs hr'

end Follows

theorem Outcome.of_bumpSkip {f : Unit → Reader α} (hr : r.rest = []) (hf : ∀ s, Within s (f ())) :
    Outcome s none ((bumpSkip >>= f) r.enclosed) :=
  .of_bump (f := fun _ => skip >>= f) hr fun s => .bind .skip fun _ => hf s

end RestCase.Pattern
