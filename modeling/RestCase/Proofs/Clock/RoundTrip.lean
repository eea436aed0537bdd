/-
# RestCase.Proofs.Clock.RoundTrip — points in time that were written are read back

The text of a point in time is a row of numbers with marks between them, and no number is followed
by a digit, so that each is read up to its mark (`readDigits_pad`, `readYear_yearChars`,
`readFraction_fractionChars`).  What is written for a second that lasts two seconds is a sixtieth
second; reading takes it for the long second before it again.  So a point in time is read from its
text (`parse_text`), and whatever text is read, what comes of it can be written and read again
(`valid_of_parse`).

Boundary: this is the text in universal time.  What a `LocalTime` shows stands in reports for people
and is read by nobody.
-/
import RestCase.Proofs.Chars.Decimals
import RestCase.Proofs.Chars.Search
import RestCase.Proofs.Clock.Calendar
import RestCase.Proofs.Decoding.Records

namespace RestCase

/-! ## Padded numbers -/

namespace Instant

open Decoding (bind_eq_ok_iff)

/-- Nothing at the front of the text could continue a number, so that `readDigits` stops there. -/
def StopsDigits (r : List Char) : Prop := ∀ c ∈ r.head?, Chars.isDigit c = false

theorem isDigit_of_mem_pad (width n : Nat) : ∀ c ∈ pad width n, Chars.isDigit c = true := by
  intro c hc
  rcases List.mem_append.1 hc with hzero | hdigit
  · obtain rfl := (List.mem_replicate.1 hzero).2
    rfl
  · exact Chars.isDigit_of_mem_digits n c hdigit

/-- Zeros in front of a number do not change it. -/
theorem ofDigits_pad (width n : Nat) : Chars.ofDigits (pad width n) = n := by
  have hzeros : ∀ k s, Chars.ofDigits (List.replicate k '0' ++ s) = Chars.ofDigits s := by
    intro k s
    induction k with
    | zero => rfl
    | succ k ih =>
      rw [List.replicate_succ, List.cons_append]
      exact ih
  rw [pad, hzeros, Chars.ofDigits_digits]

theorem pad_ne_nil (width n : Nat) : pad width n ≠ [] := by
  intro h
  exact Chars.digits_ne_nil n (List.append_eq_nil_iff.1 h).2

theorem length_pad {width n : Nat} (hwidth : 0 < width) (h : n < 10 ^ width) :
    (pad width n).length = width := by
  have hle := Chars.length_digits_le hwidth h
  rw [pad_length, Nat.max_eq_left hle]

/-- Digits up to a mark are read as one number. -/
theorem readDigits_append {width : Nat} {d r : List Char} (hne : d ≠ [])
    (hd : ∀ c ∈ d, Chars.isDigit c = true) (hwidth : d.length ≤ width)
    (hvalue : Chars.ofDigits d < 0x8000000000000000) (hr : StopsDigits r) :
    readDigits width (d ++ r) = .ok (Chars.ofDigits d, r) := by
  have htake : ((d ++ r).take width).takeWhile Chars.isDigit = d :=
    Chars.takeWhile_take_run hd hr hwidth
  have hsome : (d ++ r).isEmpty = false := by
    rw [List.isEmpty_eq_false_iff]
    exact fun h => hne (List.append_eq_nil_iff.1 h).1
  have hdigits : d.isEmpty = false := List.isEmpty_eq_false_iff.2 hne
  unfold readDigits
  simp only [htake, hsome, hdigits, Bool.false_eq_true, if_false, Nat.not_le.2 hvalue,
    List.drop_left]

/-- **A padded number is read as the number** (`pad`, `readDigits`), if there is room for its
digits. -/
theorem readDigits_pad {width n limit : Nat} {r : List Char} (hlimit : (pad width n).length ≤ limit)
    (hn : n < 0x8000000000000000) (hr : StopsDigits r) :
    readDigits limit (pad width n ++ r) = .ok (n, r) := by
  have h := readDigits_append (pad_ne_nil width n) (isDigit_of_mem_pad width n) hlimit
    (by rwa [ofDigits_pad]) hr
  rwa [ofDigits_pad] at h

/-- A padded number has no blanks in front. -/
theorem trimStart_pad (width n : Nat) (r : List Char) :
    Chars.trimStart (pad width n ++ r) = pad width n ++ r := by
  obtain ⟨c, d, hcd⟩ := List.exists_cons_of_ne_nil (pad_ne_nil width n)
  have hdigit : Chars.isDigit c = true := isDigit_of_mem_pad width n c (by simp [hcd])
  rw [hcd, Chars.trimStart, List.cons_append,
    List.dropWhile_cons_of_neg (by simp [Chars.isBlank_of_isDigit hdigit])]

/-- A field of two digits is read by `readField` up to the mark behind it. -/
theorem readField_pad {low high n : Nat} {r : List Char} (hlow : low ≤ n) (hhigh : n ≤ high)
    (htwo : high < 100) (hr : StopsDigits r) :
    readField low high (pad 2 n ++ r) = .ok (n, r) := by
  have hlength : (pad 2 n).length = 2 := length_pad (by omega) (by omega)
  have hread : readDigits 2 (pad 2 n ++ r) = .ok (n, r) :=
    readDigits_pad (Nat.le_of_eq hlength) (by omega) hr
  simp [readField, trimStart_pad, hread, hlow, hhigh, bind, Except.bind, pure, Except.pure]

/-- A mark stands where it has to. -/
theorem readMark_cons {mark : Char} (h : Chars.isBlank mark = false) (r : List Char) :
    readMark mark (mark :: r) = .ok r := by
  have htrim : Chars.trimStart (mark :: r) = mark :: r := by
    rw [Chars.trimStart, List.dropWhile_cons_of_neg (by simp [h])]
  simp [readMark, htrim]

/-! ## Years -/

/-- A year with a sign is read to the end of its digits, however many there are. -/
theorem readYear_signed {sign : Char} {year : Int} {n : Nat} {r : List Char}
    (hsign : sign = '-' ∧ year = -(n : Int) ∨ sign = '+' ∧ year = n) (hn : n < 0x80000000)
    (hr : StopsDigits r) : readYear (sign :: (pad 4 n ++ r)) = .ok (year, r) := by
  have hread : readDigits (pad 4 n ++ r).length (pad 4 n ++ r) = .ok (n, r) := by
    refine readDigits_pad ?_ (by omega) hr
    rw [List.length_append]
    exact Nat.le_add_right _ _
  have hfits : -0x80000000 ≤ year ∧ year < 0x80000000 := by omega
  rcases hsign with ⟨rfl, rfl⟩ | ⟨rfl, rfl⟩
  · have htrim : Chars.trimStart ('-' :: (pad 4 n ++ r)) = '-' :: (pad 4 n ++ r) := rfl
    simp only [readYear, htrim, hread, Except.map, bind, Except.bind]
    exact if_pos hfits
  · have htrim : Chars.trimStart ('+' :: (pad 4 n ++ r)) = '+' :: (pad 4 n ++ r) := rfl
    simp only [readYear, htrim, hread, Except.map, bind, Except.bind]
    exact if_pos hfits

/-- A year of four digits is read without a sign. -/
theorem readYear_plain {n : Nat} {r : List Char} (hn : n ≤ 9999) (hr : StopsDigits r) :
    readYear (pad 4 n ++ r) = .ok ((n : Int), r) := by
  have hlength : (pad 4 n).length = 4 := length_pad (by omega) (by omega)
  have hread : readDigits 4 (pad 4 n ++ r) = .ok (n, r) :=
    readDigits_pad (Nat.le_of_eq hlength) (by omega) hr
  have hfits : -0x80000000 ≤ (n : Int) ∧ (n : Int) < 0x80000000 := by omega
  have hhead : ∀ c ∈ (pad 4 n ++ r).head?, Chars.isDigit c = true := by
    obtain ⟨c, d, hcd⟩ := List.exists_cons_of_ne_nil (pad_ne_nil 4 n)
    have hdigit : Chars.isDigit c = true := isDigit_of_mem_pad 4 n c (by simp [hcd])
    simpa [hcd] using hdigit
  unfold readYear
  rw [trimStart_pad]
  split
  · next heq => exact absurd (hhead '-' (by rw [heq]; rfl)) (by decide)
  · next heq => exact absurd (hhead '+' (by rw [heq]; rfl)) (by decide)
  · simp only [hread, Except.map, bind, Except.bind]
    exact if_pos hfits

/-- **A year is read from what is written for it** (`yearChars`), with a sign where there is one. -/
theorem readYear_yearChars {year : Int} (h : isYear year = true) {r : List Char}
    (hr : StopsDigits r) : readYear (yearChars year ++ r) = .ok (year, r) := by
  simp only [isYear, Bool.and_eq_true, decide_eq_true_eq] at h
  unfold yearChars
  split
  · next hplain =>
    have hread := readYear_plain (n := year.toNat) (by omega) hr
    rwa [Int.toNat_of_nonneg hplain.1] at hread
  · next hsigned =>
    split
    · next hneg => exact readYear_signed (Or.inl ⟨rfl, by omega⟩) (by omega) hr
    · next hpos => exact readYear_signed (Or.inr ⟨rfl, by omega⟩) (by omega) hr

/-! ## Parts of a second -/

/-- Decimals count from the left: the places that are not written are zeros. -/
theorem readFraction_pad {width n : Nat} (hwidth : 0 < width) (hnine : width ≤ 9)
    (hn : n < 10 ^ width) :
    readFraction ('.' :: (pad width n ++ ['Z'])) = .ok (n * Chars.tenTo (9 - width), ['Z']) := by
  have hstop : StopsDigits ['Z'] := by simp [StopsDigits, Chars.isDigit]
  have hlength : (pad width n).length = width := length_pad hwidth hn
  have hsmall : n < 0x8000000000000000 := by
    have hle : 10 ^ width ≤ 10 ^ 9 := Nat.pow_le_pow_right (by omega) hnine
    omega
  have hread : readDigits 9 (pad width n ++ ['Z']) = .ok (n, ['Z']) :=
    readDigits_pad (by omega) hsmall hstop
  have hdigits : (pad width n ++ ['Z']).takeWhile Chars.isDigit = pad width n :=
    Chars.takeWhile_run (isDigit_of_mem_pad width n) hstop
  have htake : (pad width n).take 9 = pad width n := List.take_of_length_le (by omega)
  have hdrop : (pad width n ++ ['Z']).drop width = ['Z'] := List.drop_left' hlength
  simp only [readFraction, hread, hdigits, htake, hlength, hdrop, bind, Except.bind, pure,
    Except.pure]

/-- **A part of a second is read from what is written for it** (`fractionChars`), however many
decimals that has. -/
theorem readFraction_fractionChars (t : Instant) :
    readFraction (t.fractionChars ++ ['Z']) = .ok (t.nano % 1000000000, ['Z']) := by
  have hnano : t.nano % 1000000000 < 1000000000 := Nat.mod_lt _ (by omega)
  simp only [fractionChars]
  generalize t.nano % 1000000000 = n at hnano ⊢
  split
  · next hzero =>
    rw [hzero]
    rfl
  · split
    · next hmillis =>
      rw [List.cons_append, readFraction_pad (by omega) (by omega) (by omega)]
      have hvalue : n / 1000000 * Chars.tenTo (9 - 3) = n := by
        have hten : Chars.tenTo (9 - 3) = 1000000 := rfl
        rw [hten]
        omega
      rw [hvalue]
    · split
      · next hmicros =>
        rw [List.cons_append, readFraction_pad (by omega) (by omega) (by omega)]
        have hvalue : n / 1000 * Chars.tenTo (9 - 6) = n := by
          have hten : Chars.tenTo (9 - 6) = 1000 := rfl
          rw [hten]
          omega
        rw [hvalue]
      · rw [List.cons_append, readFraction_pad (by omega) (by omega) (by omega)]
        have hvalue : n * Chars.tenTo (9 - 9) = n := Nat.mul_one n
        rw [hvalue]

/-! ## Points in time -/

/-- The point in time lies in the calendar (`isYear`), and in its day; a second lasts two seconds
only where a minute ends. -/
structure Valid (t : Instant) : Prop where
  year : isYear t.date.1 = true
  second : t.second < 86400
  nano : t.nano < 1000000000 ∨ t.second % 60 = 59 ∧ t.nano < 2000000000

/-- Without an offset the day and the second stay as they are. -/
theorem earlier_zero {day : Int} {second : Nat} (h : second < 86400) (nano : Nat) :
    earlier day second nano 0 = ⟨day, second, nano⟩ := by
  have hday : (second : Int) / 86400 = 0 := by omega
  have hsecond : ((second : Int) % 86400).toNat = second := by omega
  simp [earlier, hday, hsecond]

/-- The date of a point in time, its second and no offset name it. -/
theorem resolve_date {t : Instant} (h : t.Valid) :
    resolve t.date.1 t.date.2.1 t.date.2.2 t.second t.nano 0 = .ok t := by
  have hbounds : isYear t.date.1 = true ∧ (0 : Int).natAbs < 86400 := ⟨h.year, by decide⟩
  unfold resolve
  rw [dayOf?_date]
  simp [earlier_zero h.second, hbounds]

theorem stopsDigits_cons {c : Char} (h : Chars.isDigit c = false) (r : List Char) :
    StopsDigits (c :: r) := by
  rintro _ ⟨⟩
  exact h

theorem stopsDigits_fractionChars (t : Instant) : StopsDigits (t.fractionChars ++ ['Z']) := by
  simp only [fractionChars]
  split
  · exact stopsDigits_cons rfl _
  · split
    · exact stopsDigits_cons rfl _
    · split <;> exact stopsDigits_cons rfl _

/-- The text of a point in time, number by number. -/
theorem toList_text (t : Instant) :
    t.text.toList = yearChars t.date.1 ++ '-' :: (pad 2 t.date.2.1 ++ '-' ::
      (pad 2 t.date.2.2 ++ 'T' :: (pad 2 (t.second / 3600) ++ ':' ::
        (pad 2 (t.second / 60 % 60) ++ ':' ::
          (pad 2 (t.second % 60 + t.nano / 1000000000) ++ (t.fractionChars ++ ['Z'])))))) := by
  simp [text, withOffset, dateChars, timeChars]

/-- **A point in time is read from its text**: `Instant.parse` undoes `Instant.text` on every
point that is `Valid`. -/
theorem parse_text {t : Instant} (h : t.Valid) : parse t.text = .ok t := by
  have hresolve := resolve_date h
  obtain ⟨hyear, hsecond, hnano⟩ := h
  obtain ⟨⟨hmonth₁, hmonth₂⟩, hday₁, hday₂⟩ := date_bounds t
  have hstop := stopsDigits_fractionChars t
  -- the numbers, each up to the mark behind it
  have hreadYear := fun r => readYear_yearChars hyear (stopsDigits_cons (c := '-') rfl r)
  have hreadMonth := fun r => readField_pad hmonth₁ hmonth₂ (by omega)
    (stopsDigits_cons (c := '-') rfl r)
  have hreadDay := fun r => readField_pad hday₁ hday₂ (by omega)
    (stopsDigits_cons (c := 'T') rfl r)
  have hreadHour : ∀ r, readField 0 23 (pad 2 (t.second / 3600) ++ ':' :: r) =
      .ok (t.second / 3600, ':' :: r) := fun r =>
    readField_pad (by omega) (by omega) (by omega) (stopsDigits_cons (c := ':') rfl r)
  have hreadMinute : ∀ r, readField 0 59 (pad 2 (t.second / 60 % 60) ++ ':' :: r) =
      .ok (t.second / 60 % 60, ':' :: r) := fun r =>
    readField_pad (by omega) (by omega) (by omega) (stopsDigits_cons (c := ':') rfl r)
  have hreadSecond : readField 0 60 (pad 2 (t.second % 60 + t.nano / 1000000000) ++ _) =
      .ok (t.second % 60 + t.nano / 1000000000, _) :=
    readField_pad (by omega) (by omega) (by omega) hstop
  have hdash : ∀ r, readMark '-' ('-' :: r) = .ok r := readMark_cons rfl
  have hcolon : ∀ r, readMark ':' (':' :: r) = .ok r := readMark_cons rfl
  have hseparator : ∀ r, readSeparator ('T' :: r) = .ok r := fun _ => rfl
  have hoffset : readOffset (Chars.trimStart ['Z']) = .ok (0, []) := rfl
  have hend : (Chars.trimStart []).isEmpty = true := rfl
  -- a sixtieth second is the long second before it
  have hlong : (t.second % 60 + t.nano / 1000000000) / 60 = t.nano / 1000000000 := by omega
  have hparts : t.second / 3600 * 3600 + t.second / 60 % 60 * 60 +
      (t.second % 60 + t.nano / 1000000000 - t.nano / 1000000000) = t.second := by omega
  have hrest : t.nano % 1000000000 + t.nano / 1000000000 * 1000000000 = t.nano := by omega
  unfold parse
  rw [toList_text]
  simp only [hreadYear, hreadMonth, hreadDay, hreadHour, hreadMinute, hreadSecond, hdash, hcolon,
    hseparator, readFraction_fractionChars, hoffset, hend, hlong, hparts, hrest, if_true,
    bind, Except.bind]
  exact hresolve

/-! ## What is read -/

theorem bounds_of_readField {low high n : Nat} {s r : List Char}
    (h : readField low high s = .ok (n, r)) : low ≤ n ∧ n ≤ high := by
  simp only [readField, bind_eq_ok_iff, Prod.exists] at h
  obtain ⟨m, r', -, h⟩ := h
  split at h
  · next hbounds =>
    obtain ⟨rfl, -⟩ := Prod.mk.inj (Except.ok.inj h)
    exact hbounds
  · cases h

theorem readDigits_eq_ok {width n : Nat} {s r : List Char} (h : readDigits width s = .ok (n, r)) :
    n = Chars.ofDigits ((s.take width).takeWhile Chars.isDigit) := by
  simp only [readDigits] at h
  split at h
  · cases h
  · split at h
    · cases h
    · split at h
      · cases h
      · exact (Prod.mk.inj (Except.ok.inj h)).1.symm

/-- A part of a second is shorter than a second. -/
theorem lt_of_readFraction {n : Nat} {s r : List Char} (h : readFraction s = .ok (n, r)) :
    n < 1000000000 := by
  unfold readFraction at h
  split at h
  · next s =>
    simp only [bind_eq_ok_iff, Prod.exists] at h
    obtain ⟨m, r', hread, h⟩ := h
    obtain ⟨rfl, -⟩ := Prod.mk.inj (Except.ok.inj h)
    have hm := readDigits_eq_ok hread
    rw [← List.take_takeWhile] at hm
    have hd : ∀ c ∈ (s.takeWhile Chars.isDigit).take 9, Chars.isDigit c = true := by
      intro c hc
      exact List.all_eq_true.1 List.all_takeWhile c (List.mem_of_mem_take hc)
    have hlength : ((s.takeWhile Chars.isDigit).take 9).length ≤ 9 := List.length_take_le _ _
    have hplaces : 0 < Chars.tenTo (9 - ((s.takeWhile Chars.isDigit).take 9).length) :=
      Nat.pow_pos (by decide)
    -- at most nine decimals are read, and those that are not written count as zeros
    calc m * Chars.tenTo (9 - ((s.takeWhile Chars.isDigit).take 9).length)
        < 10 ^ ((s.takeWhile Chars.isDigit).take 9).length *
            10 ^ (9 - ((s.takeWhile Chars.isDigit).take 9).length) :=
          Nat.mul_lt_mul_of_pos_right (hm ▸ Chars.ofDigits_lt hd) hplaces
      _ = 10 ^ 9 := by rw [← Nat.pow_add, Nat.add_sub_cancel' hlength]
  · obtain ⟨rfl, -⟩ := Prod.mk.inj (Except.ok.inj h)
    decide

/-- An offset is a number of minutes. -/
theorem minutes_of_readOffset {offset : Int} {s r : List Char}
    (h : readOffset s = .ok (offset, r)) : ∃ minutes : Int, offset = 60 * minutes := by
  have hnone : ∀ {r'}, (Except.ok (0, r') : Except Fault (Int × List Char)) = .ok (offset, r) →
      ∃ minutes : Int, offset = 60 * minutes := by
    intro r' h
    obtain ⟨rfl, -⟩ := Prod.mk.inj (Except.ok.inj h)
    exact ⟨0, rfl⟩
  unfold readOffset at h
  split at h
  · exact hnone h
  · split at h
    · cases h
    · split at h
      · exact hnone h
      · split at h
        · simp only [bind_eq_ok_iff, Prod.exists] at h
          obtain ⟨hours, r₁, -, minutes, r₂, -, h⟩ := h
          split at h
          · cases h
          · obtain ⟨rfl, -⟩ := Prod.mk.inj (Except.ok.inj h)
            split
            · exact ⟨hours * 60 + minutes, by omega⟩
            · exact ⟨-(hours * 60 + minutes), by omega⟩
        · cases h

/-- **What is read is a point in time** that lies in the calendar (`Valid`), whatever was
written. -/
theorem valid_of_parse {s : String} {t : Instant} (h : parse s = .ok t) : t.Valid := by
  simp only [parse, bind_eq_ok_iff, Prod.exists] at h
  obtain ⟨year, s₁, hyear, s₂, hdash, month, s₃, hmonth, s₄, hdash', day, s₅, hday, s₆, hseparator,
    hour, s₇, hhour, s₈, hcolon, minute, s₉, hminute, s₁₀, hcolon', second, s₁₁, hsecond, nano, s₁₂,
    hnano, offset, s₁₃, hoffset, h⟩ := h
  have hlong := (bounds_of_readField hsecond).2
  have hfraction := lt_of_readFraction hnano
  obtain ⟨minutes, rfl⟩ := minutes_of_readOffset hoffset
  split at h
  · simp only [resolve] at h
    split at h
    · cases h
    · split at h
      · split at h
        · next hyear' =>
          obtain rfl := Except.ok.inj h
          refine ⟨hyear', ?_, ?_⟩
          · simp only [earlier]
            omega
          · -- a sixtieth second is the fifty-ninth one with a part of a second above one
            rcases Nat.lt_or_eq_of_le hlong with hshort | rfl
            · have hnone : second / 60 = 0 := Nat.div_eq_of_lt hshort
              simp only [earlier, hnone]
              omega
            · simp only [earlier]
              omega
        · cases h
      · cases h
  · cases h

end Instant

end RestCase
