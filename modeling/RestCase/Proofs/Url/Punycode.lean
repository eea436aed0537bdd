/-
# RestCase.Proofs.Url.Punycode — Punycode reads back

Decoding goes through all pairs of a code point and a place, and a number tells how many of them it
passes before it puts in the next character.  Encoding counts the same pairs: `Encoding.delta` is
the count since the last character that was written.  The two are compared while the encoding passes
over the text once for each code point (`Encoding.Meets.pass`, `Encoding.Meets.foldl_pass`); what
decoding has by then is the part of the text with lower code points, and with the same one in the
part that was passed.

A number is read as it was written (`readNumber?_encodeNumber`), and so is every text
(`decode?_encode`).
-/
import Mathlib.Algebra.Ring.Nat
import Mathlib.Tactic.Ring
import Mathlib.Tactic.Tauto
import RestCase.Proofs.Chars.Search
import RestCase.Url.Punycode

namespace RestCase.Url.Punycode

/-! ## Numbers -/

theorem threshold_le (position bias : Nat) : threshold position bias ≤ 26 := by
  unfold threshold
  split
  · omega
  · split <;> omega

/-- A number is read by `readNumber?` as `encodeNumber` has written it, with whatever weight its
first digit has. -/
theorem readNumber?_encodeNumber (bias position q weight acc : Nat) (rest : List Char) :
    readNumber? bias (encodeNumber bias position q ++ rest) position weight acc
      = some (acc + q * weight, rest) := by
  fun_induction encodeNumber bias position q generalizing weight acc with
  | case1 position q t hlt =>
    have ht : t ≤ 26 := threshold_le position bias
    rw [List.cons_append, List.nil_append, readNumber?, digitOf?_digitChar (by omega)]
    exact if_pos hlt
  | case2 position q t hge ih =>
    have hpos : 1 ≤ t := threshold_pos position bias
    have ht : t ≤ 26 := threshold_le position bias
    have hmod : (q - t) % (36 - t) < 36 - t := Nat.mod_lt _ (by omega)
    have hdigit : ¬t + (q - t) % (36 - t) < t := by omega
    rw [List.cons_append, readNumber?, digitOf?_digitChar (by omega)]
    refine (if_neg hdigit).trans ((ih _ _).trans (congrArg (fun n => some (n, rest)) ?_))
    have hq : t + (q - t) % (36 - t) + (q - t) / (36 - t) * (36 - t) = q := by
      have := Nat.mod_add_div' (q - t) (36 - t)
      omega
    calc acc + (t + (q - t) % (36 - t)) * weight + (q - t) / (36 - t) * (weight * (36 - t))
        = acc + (t + (q - t) % (36 - t) + (q - t) / (36 - t) * (36 - t)) * weight := by ring
      _ = acc + q * weight := by rw [hq]

/-- A number is written with digits below 36, letters of which are in lower case. -/
theorem exists_digit_of_mem_encodeNumber {bias position q : Nat} {c : Char}
    (h : c ∈ encodeNumber bias position q) : ∃ n < 36, c = digitChar n := by
  fun_induction encodeNumber bias position q with
  | case1 position q t hlt =>
    have ht : t ≤ 26 := threshold_le position bias
    exact ⟨q, by omega, List.mem_singleton.1 h⟩
  | case2 position q t hge ih =>
    have hpos : 1 ≤ t := threshold_pos position bias
    have ht : t ≤ 26 := threshold_le position bias
    have hmod : (q - t) % (36 - t) < 36 - t := Nat.mod_lt _ (by omega)
    rcases List.mem_cons.1 h with rfl | h
    · exact ⟨_, by omega, rfl⟩
    · exact ih h

theorem encodeNumber_ne_nil (bias position q : Nat) : encodeNumber bias position q ≠ [] := by
  unfold encodeNumber
  extract_lets t
  split <;> exact List.cons_ne_nil _ _

/-! ## What decoding has done so far -/

/-- The state of decoding: the bias, the code point and the place it has come to, and the text. -/
structure Decoding where
  bias : Nat
  point : Nat
  place : Nat
  done : List Char

namespace Decoding

/-- Decode the rest of a text. -/
def read? (d : Decoding) (fuel : Nat) (s : List Char) : Option (List Char) :=
  readPoints? fuel d.bias d.point d.place d.done s

/-- The state after a number, by which a character comes to a place. -/
def put (d : Decoding) (number : Nat) (c : Char) (place : Nat) : Decoding :=
  ⟨adapt number (d.done.length + 1) (d.place == 0), c.toNat, place + 1, d.done.insertIdx place c⟩

/-- Decoding comes from one state to another by the digits `w`, whatever follows them. -/
structure Reaches (d : Decoding) (w : List Char) (d' : Decoding) : Prop where
  digits : ∀ c ∈ w, ∃ n < 36, c = digitChar n
  read : ∀ rest fuel, (w ++ rest).length ≤ fuel →
    ∃ fuel', rest.length ≤ fuel' ∧ d.read? fuel (w ++ rest) = d'.read? fuel' rest

theorem Reaches.refl (d : Decoding) : d.Reaches [] d :=
  ⟨fun _ h => absurd h List.not_mem_nil, fun _ fuel h => ⟨fuel, h, rfl⟩⟩

theorem Reaches.trans {d d' d'' : Decoding} {w w' : List Char} (h : d.Reaches w d')
    (h' : d'.Reaches w' d'') : d.Reaches (w ++ w') d'' := by
  refine ⟨fun c hc => (List.mem_append.1 hc).elim (h.digits c) (h'.digits c), ?_⟩
  intro rest fuel hfuel
  rw [List.append_assoc] at hfuel ⊢
  obtain ⟨fuel', hfuel', heq⟩ := h.read (w' ++ rest) fuel hfuel
  obtain ⟨fuel'', hfuel'', heq'⟩ := h'.read rest fuel' hfuel'
  exact ⟨fuel'', hfuel'', heq.trans heq'⟩

/-- The number that leads to a code point and a place puts the character there. -/
theorem reaches_put (d : Decoding) {number place : Nat} {c : Char} (hpoint : d.point ≤ c.toNat)
    (hplace : place ≤ d.done.length)
    (hnumber : number + d.place = (c.toNat - d.point) * (d.done.length + 1) + place) :
    d.Reaches (encodeNumber d.bias 36 number) (d.put number c place) := by
  refine ⟨fun _ hc => exists_digit_of_mem_encodeNumber hc, fun rest fuel hfuel => ?_⟩
  obtain ⟨digit, digits, hdigits⟩ :=
    List.exists_cons_of_ne_nil (encodeNumber_ne_nil d.bias 36 number)
  have hread := readNumber?_encodeNumber d.bias 36 number 1 d.place rest
  rw [hdigits] at hfuel hread ⊢
  obtain _ | fuel := fuel
  · simp at hfuel
  refine ⟨fuel, by simp only [List.length_append, List.length_cons] at hfuel; omega, ?_⟩
  have htotal : d.place + number * 1 = (c.toNat - d.point) * (d.done.length + 1) + place := by omega
  have hdiv : (d.place + number * 1) / (d.done.length + 1) = c.toNat - d.point := by
    rw [htotal, Nat.add_comm, Nat.add_mul_div_right _ _ (by omega),
      Nat.div_eq_of_lt (by omega), Nat.zero_add]
  have hmod : (d.place + number * 1) % (d.done.length + 1) = place := by
    rw [htotal, Nat.add_comm, Nat.add_mul_mod_self_right, Nat.mod_eq_of_lt (by omega)]
  have hvalid : c.toNat < 0xd800 ∨ 0xdfff < c.toNat ∧ c.toNat < 0x110000 := c.valid
  unfold read?
  rw [List.cons_append] at hread ⊢
  rw [readPoints?, hread]
  · simp only [hdiv, hmod, Nat.add_sub_cancel' hpoint, if_pos hvalid]
    unfold put
    simp only [Nat.add_sub_cancel_left, Nat.mul_one, Char.ofNat_toNat]
  · exact nofun

end Decoding

/-! ## One turn of encoding through the text -/

/-- The encoding and the decoding at one character of a turn for the code point `m`: the decoding
has the lower code points of the text and those up to `m` of the part that was passed, and what
encoding has counted leads there. -/
structure Encoding.Meets (basic m : Nat) (passed left : List Char) (e : Encoding) (d : Decoding) :
    Prop where
  bias : e.bias = d.bias
  handled : e.handled = d.done.length
  first : (e.handled == basic) = (d.place == 0)
  basic_le : basic ≤ e.handled
  point : d.point ≤ m
  done : d.done = passed.filter (·.toNat ≤ m) ++ left.filter (·.toNat < m)
  delta : e.delta + d.place
    = (m - d.point) * (d.done.length + 1) + (passed.filter (·.toNat ≤ m)).length

theorem insertIdx_length_append (a b : List Char) (c : Char) :
    (a ++ b).insertIdx a.length c = a ++ c :: b := by
  induction a with
  | nil => rfl
  | cons d a ih => rw [List.cons_append, List.length_cons, List.insertIdx_succ_cons, ih]; rfl

/-- Passing one character keeps the two together. -/
theorem Encoding.Meets.pass {basic m : Nat} {passed left : List Char} {c : Char} {e : Encoding}
    {d : Decoding} (h : e.Meets basic m passed (c :: left) d) :
    ∃ w d', (e.pass basic m c).written = e.written ++ w ∧ d.Reaches w d' ∧
      (e.pass basic m c).Meets basic m (passed ++ [c]) left d' := by
  obtain ⟨hbias, hhandled, hfirst, hbasic, hpoint, hdone, hdelta⟩ := h
  unfold Encoding.pass
  rcases Nat.lt_trichotomy c.toNat m with hlt | heq | hgt
  · -- a character that decoding has already: one more place to pass
    rw [if_pos hlt]
    refine ⟨[], d, (List.append_nil _).symm, .refl d, hbias, hhandled, hfirst, hbasic, hpoint, ?_,
      ?_⟩
    · simp [hdone, hlt, Nat.le_of_lt hlt]
    · simp only [List.filter_append, List.length_append, List.filter_cons, Nat.le_of_lt hlt,
        decide_true, if_true, List.filter_nil, List.length_singleton]
      omega
  · -- the character itself: its number is written
    rw [if_neg (by omega), if_pos heq]
    have hplace : (passed.filter (·.toNat ≤ m)).length ≤ d.done.length := by
      rw [hdone, List.length_append]
      omega
    have hlength : (d.done.insertIdx (passed.filter (·.toNat ≤ m)).length c).length
        = d.done.length + 1 := by
      rw [List.length_insertIdx, if_pos hplace]
    refine ⟨encodeNumber e.bias 36 e.delta,
      d.put e.delta c (passed.filter (·.toNat ≤ m)).length, rfl, ?_, ?_, ?_, ?_, ?_, ?_, ?_, ?_⟩
    · rw [hbias]
      exact d.reaches_put (heq ▸ hpoint) hplace (heq ▸ hdelta)
    · simp only [Decoding.put]
      rw [hfirst, hhandled]
    · simp only [Decoding.put, hlength, hhandled]
    · have hmore : e.handled + 1 ≠ basic := by omega
      simp [Decoding.put, hmore]
    · exact Nat.le_succ_of_le hbasic
    · exact Nat.le_of_eq heq
    · have hleft : (c :: left).filter (·.toNat < m) = left.filter (·.toNat < m) := by
        simp [heq]
      simp only [Decoding.put]
      rw [hdone, insertIdx_length_append, hleft]
      simp [heq]
    · simp [Decoding.put, heq]
  · -- a character that decoding does not have yet
    rw [if_neg (by omega), if_neg (by omega)]
    refine ⟨[], d, (List.append_nil _).symm, .refl d, hbias, hhandled, hfirst, hbasic, hpoint, ?_,
      ?_⟩
    · simp [hdone, Nat.not_lt.2 (Nat.le_of_lt hgt), Nat.not_le.2 hgt]
    · simpa [Nat.not_le.2 hgt] using hdelta

/-- A whole turn keeps the two together. -/
theorem Encoding.Meets.foldl_pass {basic m : Nat} {passed left : List Char} {e : Encoding}
    {d : Decoding} (h : e.Meets basic m passed left d) :
    ∃ w d', (left.foldl (Encoding.pass basic m) e).written = e.written ++ w ∧ d.Reaches w d' ∧
      (left.foldl (Encoding.pass basic m) e).Meets basic m (passed ++ left) [] d' := by
  induction left generalizing passed e d with
  | nil => exact ⟨[], d, (List.append_nil _).symm, .refl d, by simpa using h⟩
  | cons c left ih =>
    obtain ⟨w, d', hw, hreach, hmeets⟩ := h.pass
    obtain ⟨w', d'', hw', hreach', hmeets'⟩ := ih hmeets
    refine ⟨w ++ w', d'', ?_, hreach.trans hreach', by simpa using hmeets'⟩
    rw [List.foldl_cons, hw', hw, List.append_assoc]

/-! ## All turns -/

/-- The encoding and the decoding between two turns: the decoding has all code points below `next`,
and what encoding has counted leads to the first place for `next`. -/
structure Encoding.Rests (text : List Char) (basic next : Nat) (e : Encoding) (d : Decoding) :
    Prop where
  bias : e.bias = d.bias
  handled : e.handled = d.done.length
  first : (e.handled == basic) = (d.place == 0)
  basic_le : basic ≤ e.handled
  point : d.point ≤ next
  done : d.done = text.filter (·.toNat < next)
  delta : e.delta + d.place = (next - d.point) * (d.done.length + 1)

theorem Encoding.Rests.turn {text : List Char} {basic next m : Nat} {e : Encoding} {d : Decoding}
    (h : e.Rests text basic next d) (hm : next ≤ m)
    (hgap : ∀ c ∈ text, next ≤ c.toNat → m ≤ c.toNat) :
    ({ e with delta := e.delta + (m - next) * (e.handled + 1) } : Encoding).Meets basic m [] text
      d := by
  obtain ⟨hbias, hhandled, hfirst, hbasic, hpoint, hdone, hdelta⟩ := h
  refine ⟨hbias, hhandled, hfirst, hbasic, hpoint.trans hm, ?_, ?_⟩
  · rw [hdone]
    refine List.filter_congr fun c hc => decide_eq_decide.2 ⟨fun h => by omega, fun h => ?_⟩
    have := hgap c hc
    omega
  · have hsplit : m - d.point = (m - next) + (next - d.point) := by omega
    rw [hsplit, Nat.add_mul, ← hdelta, hhandled]
    simp only [List.filter_nil, List.length_nil]
    omega

theorem Encoding.Meets.rest {text : List Char} {basic m : Nat} {e : Encoding} {d : Decoding}
    (h : e.Meets basic m text [] d) :
    ({ e with delta := e.delta + 1 } : Encoding).Rests text basic (m + 1) d := by
  obtain ⟨hbias, hhandled, hfirst, hbasic, hpoint, hdone, hdelta⟩ := h
  have hdone' : d.done = text.filter (·.toNat ≤ m) := by simpa using hdone
  refine ⟨hbias, hhandled, hfirst, hbasic, by omega, ?_, ?_⟩
  · rw [hdone']
    exact List.filter_congr fun c _ => decide_eq_decide.2 Nat.lt_succ_iff.symm
  · have hsplit : m + 1 - d.point = (m - d.point) + 1 := by omega
    rw [hsplit, Nat.add_mul]
    rw [← hdone'] at hdelta
    simp only
    omega

/-- Writing all code points that are left brings the decoding to the whole text. -/
theorem Encoding.Rests.writeAll {text : List Char} {basic : Nat} {points : List Nat} {next : Nat}
    {e : Encoding} {d : Decoding} (h : e.Rests text basic next d)
    (hsorted : points.Pairwise (· < ·))
    (hpoints : ∀ m ∈ points, next ≤ m) (hall : ∀ c ∈ text, next ≤ c.toNat → c.toNat ∈ points) :
    ∃ w d', (Encoding.writeAll text basic points next e).written = e.written ++ w ∧ d.Reaches w d' ∧
      d'.done = text := by
  induction points generalizing next e d with
  | nil =>
    refine ⟨[], d, (List.append_nil _).symm, .refl d, ?_⟩
    rw [h.done, List.filter_eq_self]
    intro c hc
    by_contra hlt
    exact absurd (hall c hc (by simpa using hlt)) (List.not_mem_nil)
  | cons m points ih =>
    obtain ⟨hfirst, hrest⟩ := List.pairwise_cons.1 hsorted
    have hm : next ≤ m := hpoints m List.mem_cons_self
    have hgap : ∀ c ∈ text, next ≤ c.toNat → m ≤ c.toNat := fun c hc hnext => by
      rcases List.mem_cons.1 (hall c hc hnext) with heq | hmem
      · exact Nat.le_of_eq heq.symm
      · exact Nat.le_of_lt (hfirst _ hmem)
    obtain ⟨w, d', hw, hreach, hmeets⟩ := (h.turn hm hgap).foldl_pass
    have hall' : ∀ c ∈ text, m + 1 ≤ c.toNat → c.toNat ∈ points := fun c hc hnext => by
      rcases List.mem_cons.1 (hall c hc (by omega)) with heq | hmem
      · omega
      · exact hmem
    obtain ⟨w', d'', hw', hreach', hdone⟩ := ih hmeets.rest hrest (fun k hk => hfirst k hk) hall'
    refine ⟨w ++ w', d'', ?_, hreach.trans hreach', hdone⟩
    rw [Encoding.writeAll, hw', ← List.append_assoc]
    exact congrArg (· ++ w') hw

/-! ## The points of a text -/

theorem mem_insertPoint {n k : Nat} {l : List Nat} : k ∈ insertPoint n l ↔ k = n ∨ k ∈ l := by
  induction l with
  | nil => simp [insertPoint]
  | cons m r ih =>
    rw [insertPoint]
    split
    · simp
    split
    · next heq => simp [heq]
    · rw [List.mem_cons, ih, List.mem_cons]
      tauto

theorem pairwise_insertPoint (n : Nat) {l : List Nat} (h : l.Pairwise (· < ·)) :
    (insertPoint n l).Pairwise (· < ·) := by
  induction l with
  | nil => simp [insertPoint]
  | cons m r ih =>
    obtain ⟨hm, hr⟩ := List.pairwise_cons.1 h
    rw [insertPoint]
    split
    · next hlt =>
      refine List.pairwise_cons.2 ⟨fun k hk => ?_, h⟩
      rcases List.mem_cons.1 hk with rfl | hk
      · exact hlt
      · exact hlt.trans (hm k hk)
    split
    · exact h
    · refine List.pairwise_cons.2 ⟨fun k hk => ?_, ih hr⟩
      rcases mem_insertPoint.1 hk with rfl | hk
      · omega
      · exact hm k hk

theorem mem_foldr_insertPoint {s : List Char} {k : Nat} :
    k ∈ s.foldr (fun c l => insertPoint c.toNat l) [] ↔ ∃ c ∈ s, k = c.toNat := by
  induction s with
  | nil => simp
  | cons c s ih => simp [mem_insertPoint, ih]

theorem pairwise_foldr_insertPoint (s : List Char) :
    (s.foldr (fun c l => insertPoint c.toNat l) []).Pairwise (· < ·) := by
  induction s with
  | nil => exact List.Pairwise.nil
  | cons c s ih => exact pairwise_insertPoint c.toNat ih

/-! ## Whole texts -/

/-- The digits that encoding writes, by which decoding comes from the ASCII part to the text. -/
theorem exists_encode_eq (text : List Char) :
    ∃ w d, encode text = text.filter (·.toNat < 0x80)
        ++ (if (text.filter (·.toNat < 0x80)).isEmpty then [] else ['-']) ++ w ∧
      Decoding.Reaches ⟨72, 0x80, 0, text.filter (·.toNat < 0x80)⟩ w d ∧ d.done = text := by
  have hrests : Encoding.Rests text (text.filter (·.toNat < 0x80)).length 0x80
      ⟨[], 0, 72, (text.filter (·.toNat < 0x80)).length⟩
      ⟨72, 0x80, 0, text.filter (·.toNat < 0x80)⟩ :=
    ⟨rfl, rfl, by simp, Nat.le_refl _, Nat.le_refl _, rfl, by simp⟩
  obtain ⟨w, d, hw, hreach, hdone⟩ := hrests.writeAll
    (pairwise_foldr_insertPoint (text.filter fun c => 0x80 ≤ c.toNat))
    (fun m hm => by
      obtain ⟨c, hc, rfl⟩ := mem_foldr_insertPoint.1 hm
      simpa using (List.mem_filter.1 hc).2)
    (fun c hc hlow => mem_foldr_insertPoint.2 ⟨c, List.mem_filter.2 ⟨hc, by simpa using hlow⟩, rfl⟩)
  refine ⟨w, d, ?_, hreach, hdone⟩
  unfold encode
  simp only [hw, List.nil_append]

/-- What an encoding is made of: ASCII characters of the text, hyphens and digits (`digitChar`). -/
theorem mem_encode {text : List Char} {c : Char} (h : c ∈ encode text) :
    (c ∈ text ∧ c.toNat < 0x80) ∨ c = '-' ∨ ∃ n < 36, c = digitChar n := by
  obtain ⟨w, d, hencode, hreach, -⟩ := exists_encode_eq text
  rw [hencode] at h
  rcases List.mem_append.1 h with h | h
  · rcases List.mem_append.1 h with h | h
    · exact .inl (by simpa using h)
    · refine .inr (.inl ?_)
      split at h
      · cases h
      · exact List.mem_singleton.1 h
  · exact .inr (.inr (hreach.digits c h))

/-- The digits after the last hyphen are parted from what stands before it. -/
theorem decode?_of_digits {basic w : List Char} (hw : ∀ c ∈ w, c ≠ '-')
    (hbasic : ∀ c ∈ basic, c.toNat < 0x80) :
    decode? (basic ++ (if basic.isEmpty then [] else ['-']) ++ w)
      = readPoints? (basic ++ (if basic.isEmpty then [] else ['-']) ++ w).length 72 0x80 0 basic
        w := by
  have hnot : '-' ∉ w := fun hmem => hw '-' hmem rfl
  have hascii : (basic.any fun c => 0x80 ≤ c.toNat) = false := by
    simpa using hbasic
  unfold decode?
  cases hempty : basic.isEmpty with
  | true =>
    obtain rfl := List.isEmpty_iff.1 hempty
    have hall := Chars.afterLast_of_not_mem hnot
    simp [hall]
  | false =>
    simp only [Bool.false_eq_true, if_false, List.append_assoc, List.singleton_append,
      Chars.afterLast_append basic hnot, Chars.take_append_mark, hascii]

/-- Every text is read as it was written: `decode?` undoes `encode`. -/
theorem decode?_encode (text : List Char) : decode? (encode text) = some text := by
  obtain ⟨w, d, hencode, hreach, hdone⟩ := exists_encode_eq text
  have hhyphen : ∀ c ∈ w, c ≠ '-' := fun c hc => by
    obtain ⟨n, hn, rfl⟩ := hreach.digits c hc
    rintro heq
    have hdigit := digitOf?_digitChar hn
    rw [heq] at hdigit
    cases hdigit
  rw [hencode, decode?_of_digits hhyphen fun c hc => by simpa using (List.mem_filter.1 hc).2]
  obtain ⟨fuel, -, hread⟩ := hreach.read [] (text.filter (·.toNat < 0x80)
    ++ (if (text.filter (·.toNat < 0x80)).isEmpty then [] else ['-']) ++ w).length
    (by simp only [List.length_append, List.length_nil]; omega)
  rw [List.append_nil] at hread
  refine hread.trans ?_
  rw [← hdone]
  cases fuel <;> rfl

/-! ## What is decoded -/

/-- A number is made of digits. -/
theorem digits_of_readNumber? {bias position weight acc n : Nat} {s rest : List Char}
    (h : readNumber? bias s position weight acc = some (n, rest)) :
    ∃ used, s = used ++ rest ∧ ∀ c ∈ used, (digitOf? c).isSome := by
  fun_induction readNumber? bias s position weight acc with
  | case1 => cases h
  | case2 => cases h
  | case3 c r position weight acc digit hdigit t hlt =>
    cases h
    exact ⟨[c], rfl, by simp [hdigit]⟩
  | case4 c r position weight acc digit hdigit t hge ih =>
    obtain ⟨used, hused, hall⟩ := ih h
    refine ⟨c :: used, by rw [hused]; rfl, fun e he => ?_⟩
    rcases List.mem_cons.1 he with rfl | he
    · simp [hdigit]
    · exact hall e he

/-- Points are read from digits, and what was there before stays. -/
theorem mem_of_readPoints? {fuel bias point place : Nat} {done s text : List Char}
    (h : readPoints? fuel bias point place done s = some text) :
    (∀ c ∈ s, (digitOf? c).isSome) ∧ ∀ c ∈ done, c ∈ text := by
  fun_induction readPoints? fuel bias point place done s with
  | case1 =>
    cases h
    exact ⟨fun c hc => absurd hc List.not_mem_nil, fun c hc => hc⟩
  | case2 => cases h
  | case3 => cases h
  | case4 fuel bias point place done s hs n rest hread count next hnext ih =>
    obtain ⟨used, rfl, hall⟩ := digits_of_readNumber? hread
    obtain ⟨hrest, hdone⟩ := ih h
    refine ⟨fun c hc => (List.mem_append.1 hc).elim (hall c) (hrest c), fun c hc => hdone c ?_⟩
    have hplace : n % count ≤ done.length := Nat.le_of_lt_succ (Nat.mod_lt _ (Nat.succ_pos _))
    exact (List.mem_insertIdx hplace).2 (.inr hc)
  | case5 => cases h

/-- What was decoded is made of hyphens, digits and ASCII characters of the result. -/
theorem mem_of_decode? {s text : List Char} (h : decode? s = some text) {c : Char} (hc : c ∈ s) :
    (c ∈ text ∧ c.toNat < 0x80) ∨ c = '-' ∨ (digitOf? c).isSome := by
  unfold decode? at h
  extract_lets tail basic at h
  split at h
  · cases h
  next hascii =>
  obtain ⟨hdigits, hbasic⟩ := mem_of_readPoints? h
  by_cases hmark : '-' ∈ s
  · obtain ⟨front, digits, rfl, hnot⟩ := Chars.exists_last_of_mem hmark
    have htail : tail = digits := Chars.afterLast_append front hnot
    have hfront : basic = front := by
      show (front ++ '-' :: digits).take ((front ++ '-' :: digits).length - tail.length - 1) = front
      rw [htail, Chars.take_append_mark]
    rw [List.mem_append, List.mem_cons] at hc
    rcases hc with hc | rfl | hc
    · have hall : ∀ c ∈ basic, c.toNat < 0x80 := by simpa using hascii
      exact .inl ⟨hbasic c (hfront ▸ hc), hall c (hfront ▸ hc)⟩
    · exact .inr (.inl rfl)
    · exact .inr (.inr (hdigits c (htail ▸ hc)))
  · -- without a hyphen all of it is digits
    have htail : tail = s := Chars.afterLast_of_not_mem hmark
    exact .inr (.inr (hdigits c (htail ▸ hc)))

end RestCase.Url.Punycode
