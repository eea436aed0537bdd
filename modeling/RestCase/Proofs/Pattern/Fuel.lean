/-
# RestCase.Proofs.Pattern.Fuel — the bound on the steps of reading is never felt

Reading is by recursion on a bound, and a reader is given a bound above the length of the text that
is left, three times over where groups, alternatives and sequences take turns.  With any two such
bounds it comes to the same (`agrees_readAlternatives`): the induction is on the length of what is
left, and every call in a turn has read a character since the last one of its kind.
-/
import RestCase.Proofs.Pattern.Enclosing

namespace RestCase.Pattern

open Reader

variable {α β : Type} {s t : List Char} {r : Reading}

/-- Two steps come to the same from `r`. -/
def Agrees (R R' : Reader α) (r : Reading) : Prop := R r = R' r

namespace Agrees

theorem bind {m m' : Reader α} {f f' : α → Reader β} (hm : Agrees m m' r)
    (hf : ∀ x r', m r = some (x, r') → Agrees (f x) (f' x) r') :
    Agrees (m >>= f) (m' >>= f') r := by
  change (m r).bind (fun p => f p.1 p.2) = (m' r).bind fun p => f' p.1 p.2
  rw [← hm]
  exact Option.bind_congr fun p hp => hf p.1 p.2 hp

theorem peek_bind {f f' : Option Char → Reader α} (hnil : r.rest = [] → Agrees (f none) (f' none) r)
    (hcons : ∀ c t, r.rest = c :: t → Agrees (f (some c)) (f' (some c)) r) :
    Agrees (peek >>= f) (peek >>= f') r := by
  change f r.rest.head? r = f' r.rest.head? r
  cases h : r.rest with
  | nil => exact hnil h
  | cons c t => exact hcons c t h

theorem ite {c : Prop} [Decidable c] {R R' S S' : Reader α} (h : Agrees R R' r)
    (h' : Agrees S S' r) : Agrees (if c then R else S) (if c then R' else S') r := by
  split
  · exact h
  · exact h'

end Agrees

/-- What a step leaves of a text is told by how it is followed on the enclosed text. -/
theorem Follows.suffix {R R' : Reader α} {x : α} {r' : Reading} (h : Follows s R R' r)
    (hx : R r = some (x, r')) : r'.rest <:+ s := by
  unfold Follows at h
  rw [hx] at h
  generalize R' r.enclosed = o at h
  cases h with
  | same h => exact h
  | swallowed h => exact h ▸ List.nil_suffix

/-! ## Sets -/

theorem agrees_readSetRest [Engine] {fuel fuel' : Nat} (negated : Bool)
    (waiting : Option (SetOp × Nested CharSet)) (g : Gathered CharSet) (h : r.rest.length < fuel)
    (h' : r.rest.length < fuel') :
    Agrees (readSetRest fuel negated waiting g) (readSetRest fuel' negated waiting g) r := by
  induction fuel generalizing fuel' negated waiting g r with
  | zero => omega
  | succ fuel ih =>
    obtain _ | fuel' := fuel'
    · omega
    unfold readSetRest
    refine .bind rfl fun _ r₁ hskip => .bind rfl fun here r₂ hhere => ?_
    cases hhere
    have hlength : r₁.rest.length ≤ r.rest.length :=
      (Within.skip r () r₁ (List.suffix_refl _) hskip).length_le
    cases hrest : r₁.rest with
    | nil => rfl
    | cons c u =>
      rw [hrest, List.length_cons] at hlength
      have hstep {r' : Reading} (hr' : r'.rest <:+ u) (negated : Bool)
          (waiting : Option (SetOp × Nested CharSet)) (g : Gathered CharSet) :
          Agrees (readSetRest fuel negated waiting g) (readSetRest fuel' negated waiting g)
            r' := by
        have := hr'.length_le
        exact ih _ _ _ (by omega) (by omega)
      split
      · next op hop =>
        obtain ⟨d, v, rfl⟩ := exists_cons_of_setOp? hop
        have hv : ({ r₁ with rest := v } : Reading).rest <:+ d :: v := List.suffix_cons d v
        exact hstep hv _ _ _
      · simp only [List.head?_cons]
        split
        · rfl
        · rfl
        · split
          · next hclass =>
            refine .bind rfl fun _ r₂ hgo => .bind rfl fun f r₃ hflags => ?_
            refine .bind rfl fun set' r₄ hset => hstep ?_ _ _ _
            cases hgo
            cases hflags
            exact (still_complementIf _ _).within _ _ _ (classIn?_suffix hclass) hset
          · refine .bind rfl fun _ r₂ hbump => .bind rfl fun p r₃ hstart => ?_
            have h₂ : r₂.rest <:+ u := by
              cases hbump
              change afterGaps r₁.flags (r₁.rest.drop 1) <:+ u
              rw [hrest]
              exact afterGaps_suffix _ u
            have h₃ : r₃.rest <:+ u := within_readSetStart _ _ _ h₂ hstart
            refine .bind (hstep h₃ _ _ _) fun inner r₄ hinner => hstep ?_ _ _ _
            exact within_readSetRest _ _ _ _ _ _ _ h₃ hinner
        · exact .bind rfl fun _ r₂ hrange => hstep ((follows_readRange hrest).suffix hrange) _ _ _

theorem agrees_readSet [Engine] {fuel fuel' : Nat} {c : Char} (hc : r.rest = c :: t)
    (h : t.length < fuel) (h' : t.length < fuel') : Agrees (readSet fuel) (readSet fuel') r := by
  refine .bind rfl fun _ r₁ h₁ => .bind rfl fun _ r₂ h₂ => .bind rfl fun p r₃ h₃ => ?_
  have hrest : r₁.rest <:+ t := (Follows.expect_of_cons '[' hc).suffix h₁
  have hlength := (within_readSetStart _ _ _ (Within.skip _ _ _ hrest h₂) h₃).length_le
  exact agrees_readSetRest _ _ _ (by omega) (by omega)

/-! ## Patterns -/

mutual
theorem agrees_readAlternatives [Engine] {fuel fuel' : Nat} {r : Reading}
    (h : 3 * r.rest.length + 2 ≤ fuel) (h' : 3 * r.rest.length + 2 ≤ fuel') :
    Agrees (readAlternatives fuel) (readAlternatives fuel') r := by
  match fuel, fuel' with
  | fuel + 1, fuel' + 1 =>
    unfold readAlternatives
    refine .bind (agrees_readSequence [] (by omega) (by omega)) fun p r₁ h₁ => ?_
    have hlength := (within_readSequence _ _ _ _ _ (List.suffix_refl _) h₁).length_le
    refine .peek_bind (fun _ => rfl) fun c t hc => ?_
    rw [hc, List.length_cons] at hlength
    split
    · refine .bind rfl fun _ r₂ h₂ => .bind ?_ fun _ _ _ => rfl
      have := ((Follows.bump hc).suffix h₂).length_le
      exact agrees_readAlternatives (by omega) (by omega)
    · rfl

theorem agrees_readSequence [Engine] {fuel fuel' : Nat} (items : List Item) {r : Reading}
    (h : 3 * r.rest.length + 1 ≤ fuel) (h' : 3 * r.rest.length + 1 ≤ fuel') :
    Agrees (readSequence fuel items) (readSequence fuel' items) r := by
  match fuel, fuel' with
  | fuel + 1, fuel' + 1 =>
    unfold readSequence
    refine .bind rfl fun _ r₁ hskip => .peek_bind (fun _ => rfl) fun c t hc => ?_
    have hlength := (Within.skip _ _ _ (List.suffix_refl _) hskip).length_le
    rw [hc, List.length_cons] at hlength
    have hnext (items : List Item) (r' : Reading) (hr' : r'.rest <:+ t) :
        Agrees (readSequence fuel items) (readSequence fuel' items) r' := by
      have := hr'.length_le
      exact agrees_readSequence items (by omega) (by omega)
    split
    · rfl
    · rfl
    · rfl
    · have hfuel : 3 * t.length + 3 ≤ fuel := by omega
      refine .bind (agrees_readGroup hc hfuel (by omega)) fun item r₂ h₂ => hnext _ r₂ ?_
      exact (follows_readGroup hc hfuel hfuel).suffix h₂
    · have hfuel : t.length < fuel := by omega
      refine .bind (agrees_readSet hc hfuel (by omega)) fun set r₂ h₂ => hnext _ r₂ ?_
      exact (follows_readSet hc hfuel hfuel).suffix h₂
    · refine .ite (.bind rfl fun items r₂ h₂ => hnext items r₂ ?_)
        (.bind rfl fun p r₂ h₂ => hnext _ r₂ ?_)
      · exact (follows_readRepetition _ hc).suffix h₂
      · exact (follows_readPrimitive hc).suffix h₂

theorem agrees_readGroup [Engine] {fuel fuel' : Nat} {c : Char} {t : List Char} {r : Reading}
    (hc : r.rest = c :: t) (h : 3 * t.length + 3 ≤ fuel) (h' : 3 * t.length + 3 ≤ fuel') :
    Agrees (readGroup fuel) (readGroup fuel') r := by
  match fuel, fuel' with
  | fuel + 1, fuel' + 1 =>
    unfold readGroup
    refine .bind rfl fun _ r₁ h₁ => .bind rfl fun o r₂ h₂ => ?_
    have h₃ : r₂.rest <:+ t := within_readOpening _ _ _ ((Follows.bump hc).suffix h₁) h₂
    have hlength := h₃.length_le
    cases o with
    | setting f => rfl
    | group inside =>
      refine .bind rfl fun _ r₃ hflags => .bind rfl fun _ r₄ hset => .bind ?_ fun _ _ _ => rfl
      cases hflags
      cases hset
      exact agrees_readAlternatives (by simp only; omega) (by simp only; omega)
end

end RestCase.Pattern
