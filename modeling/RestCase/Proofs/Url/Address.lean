/-
# RestCase.Proofs.Url.Address — numeric addresses are read as they are written

A short address is written as four decimal numbers and a long one as its pieces in hexadecimal, the
longest run of zeros left out.  Both are read back to the address that was written
(`readShortAddress?_shortAddressChars`, `readLongAddress?_longAddressChars`).  For the long one the
pieces before the run, the gap and the pieces after it are read one after the other, and the gap is
filled with as many zeros as the run had.

What is read fits: an address of four bytes (`shortAddress?_lt`), or eight pieces of two bytes
(`readLongAddress?_fits`).  A short address is also a name of small letters and digits, so that a
lawful mapping of names leaves it as it is.
-/
import RestCase.Proofs.Chars.Decimals
import RestCase.Proofs.Chars.Hexadecimals
import RestCase.Proofs.Chars.Search
import RestCase.Proofs.Json.Scalars
import RestCase.Proofs.Url.Domain
import RestCase.Url.Address

namespace RestCase.Url

/-! ## Short addresses -/

theorem partValue?_digits (n : Nat) : partValue? (Chars.digits n) = some n := by
  have hall := Chars.isDigit_of_mem_digits n
  have hparts : partDigits (Chars.digits n) = (10, Chars.digits n) := by
    unfold partDigits
    split
    · next r hr =>
      cases hall 'x' (by rw [hr]; simp)
    · next r hr =>
      cases hall 'X' (by rw [hr]; simp)
    · next c r _ _ hr =>
      rcases Nat.eq_zero_or_pos n with rfl | hn
      · rw [Chars.digits] at hr
        cases hr
      · exact absurd (by rw [hr]; rfl) (Chars.head?_digits_ne_zero (Nat.ne_of_gt hn))
    · rfl
  have hdigit : ∀ c ∈ Chars.digits n, Chars.hexValue c = Chars.digitValue c ∧
      isDigitOf 10 c = true := by
    intro c hc
    have hrange := (Chars.isDigit_iff c).1 (hall c hc)
    have hvalue : Chars.hexValue c = Chars.digitValue c := by
      rw [Chars.hexValue, if_pos (hall c hc), Chars.digitValue]
    refine ⟨hvalue, ?_⟩
    have hsmall : Chars.digitValue c < 10 := by
      unfold Chars.digitValue
      omega
    simp [isDigitOf, Chars.isHexDigit, hall c hc, hvalue, hsmall]
  have hvalue : (Chars.digits n).foldl (fun m c => m * 10 + Chars.hexValue c) 0 = n := by
    rw [List.foldl_ext _ (fun m c => m * 10 + Chars.digitValue c) 0 fun m c hc => by
      rw [(hdigit c hc).1]]
    exact Chars.ofDigits_digits n
  have hvalid : (Chars.digits n).all (isDigitOf 10) = true :=
    List.all_eq_true.2 fun c hc => (hdigit c hc).2
  unfold partValue?
  rw [if_neg (by simpa using Chars.digits_ne_nil n), hparts]
  simp only [hvalid, if_true, hvalue]

/-- The four numbers of a short address. -/
def addressBytes (n : Nat) : List Nat :=
  [n / 0x1000000 % 256, n / 0x10000 % 256, n / 256 % 256, n % 256]

theorem nameParts_shortAddressChars (n : Nat) :
    nameParts (shortAddressChars n) = (addressBytes n).map Chars.digits := by
  have hsplit : (shortAddressChars n).splitOnP (· == '.') = (addressBytes n).map Chars.digits := by
    refine List.splitOn_intercalate '.' (fun label hlabel hdot => ?_) (List.cons_ne_nil _ _)
    obtain ⟨b, -, rfl⟩ := List.mem_map.1 hlabel
    cases Chars.isDigit_of_mem_digits b '.' hdot
  have hlast : ((addressBytes n).map Chars.digits).getLast? ≠ some [] := by
    intro hnil
    exact Chars.digits_ne_nil (n % 256) (Option.some.inj hnil)
  unfold nameParts
  rw [hsplit]
  exact if_neg (by simpa using hlast)

/-- A short address is a name in ASCII. -/
theorem toAscii?_shortAddressChars [Names] [LawfulNames] (n : Nat) :
    Names.toAscii? (shortAddressChars n) = some (shortAddressChars n) := by
  refine LawfulNames.plain (List.cons_ne_nil _ _) fun label hlabel => ?_
  obtain ⟨b, -, rfl⟩ := List.mem_map.1 hlabel
  refine ⟨Chars.digits_ne_nil b, fun c hc => ?_⟩
  rw [isNameChar, Chars.isDigit_of_mem_digits b c hc, Bool.or_true]

theorem endsInNumber_shortAddressChars (n : Nat) : endsInNumber (shortAddressChars n) = true := by
  have hall : (Chars.digits (n % 256)).all Chars.isDigit = true :=
    List.all_eq_true.2 (Chars.isDigit_of_mem_digits _)
  have hne := Chars.digits_ne_nil (n % 256)
  unfold endsInNumber
  rw [nameParts_shortAddressChars]
  simp [addressBytes, hall, hne]

/-- **A short address is read as it was written**: `readShortAddress?` undoes
`shortAddressChars`. -/
theorem readShortAddress?_shortAddressChars {n : Nat} (h : n < 0x100000000) :
    readShortAddress? (shortAddressChars n) = some n := by
  unfold readShortAddress?
  rw [nameParts_shortAddressChars]
  simp only [addressBytes, List.map_cons, List.map_nil, List.mapM_cons, List.mapM_nil,
    partValue?_digits]
  have hbyte : ∀ m, m % 256 < 256 := fun m => Nat.mod_lt m (by decide)
  show shortAddress? [n / 0x1000000 % 256, n / 0x10000 % 256, n / 256 % 256, n % 256] = some n
  have hsmall : ∀ m, ¬255 < m % 256 := fun m => by have := hbyte m; omega
  simp [shortAddress?, hbyte, hsmall]
  omega

/-- The number that bytes amount to, for any weights of their places. -/
def weighted (weight : Nat → Nat) (bytes : List Nat) (last : Nat) : Nat :=
  bytes.zipIdx.foldl (fun n e => n + e.1 * weight e.2) last

theorem weighted_lt {weight : Nat → Nat} {leading : List Nat} {last : Nat}
    (h₀ : weight 0 = 0x1000000) (h₁ : weight 1 = 0x10000) (h₂ : weight 2 = 0x100)
    (hlength : leading.length ≤ 3) (hlast : last < Nat.pow 256 (4 - leading.length))
    (hbyte : ∀ b ∈ leading, b ≤ 255) : weighted weight leading last < 0x100000000 := by
  -- one case for each number of bytes
  rcases leading with _ | ⟨a, _ | ⟨b, _ | ⟨c, _ | ⟨d, others⟩⟩⟩⟩ <;>
    simp only [List.length_cons, List.length_nil] at hlast
  · exact hlast
  · replace hlast : last < 0x1000000 := hlast
    have ha := hbyte a (by simp)
    show last + a * weight 0 < 0x100000000
    rw [h₀]
    omega
  · replace hlast : last < 0x10000 := hlast
    have ha := hbyte a (by simp)
    have hb := hbyte b (by simp)
    show last + a * weight 0 + b * weight 1 < 0x100000000
    rw [h₀, h₁]
    omega
  · replace hlast : last < 0x100 := hlast
    have ha := hbyte a (by simp)
    have hb := hbyte b (by simp)
    have hc := hbyte c (by simp)
    show last + a * weight 0 + b * weight 1 + c * weight 2 < 0x100000000
    rw [h₀, h₁, h₂]
    omega
  · exact absurd hlength (by simp)

/-- What is read is an address of four bytes. -/
theorem shortAddress?_lt {numbers : List Nat} {n : Nat} (h : shortAddress? numbers = some n) :
    n < 0x100000000 := by
  unfold shortAddress? at h
  cases hreverse : numbers.reverse with
  | nil =>
    rw [hreverse] at h
    cases h
  | cons last before =>
    rw [hreverse] at h
    simp only at h
    split_ifs at h with hfit hbytes
    rw [not_or, Nat.not_lt, Nat.not_le] at hfit
    rw [← Option.some.inj h]
    exact @weighted_lt (fun i => Nat.pow 256 (3 - i)) _ _ rfl rfl rfl hfit.1 hfit.2
      (by simpa using hbytes)

/-! ## Long addresses -/

/-- A draft with more pieces. -/
def PieceDraft.put (d : PieceDraft) (pieces : List Nat) : PieceDraft :=
  { d with current := d.current ++ pieces }

@[simp] theorem PieceDraft.put_put (d : PieceDraft) (ps qs : List Nat) :
    (d.put ps).put qs = d.put (ps ++ qs) := by
  simp [put]

@[simp] theorem PieceDraft.count_put (d : PieceDraft) (ps : List Nat) :
    (d.put ps).count = d.count + ps.length := by
  unfold count put
  simp only [List.length_append]
  omega

theorem pieceChars_singleton (p : Nat) : pieceChars [p] = Chars.hexDigits p := by
  simp [pieceChars, List.intercalate_singleton]

theorem pieceChars_cons_cons (p q : Nat) (ps : List Nat) :
    pieceChars (p :: q :: ps) = Chars.hexDigits p ++ ':' :: pieceChars (q :: ps) := by
  simp [pieceChars, List.intercalate_cons_cons]

theorem pieceChars_ne_nil {pieces : List Nat} (h : pieces ≠ []) : pieceChars pieces ≠ [] := by
  match pieces, h with
  | [p], _ => rw [pieceChars_singleton]; exact Chars.hexDigits_ne_nil p
  | p :: q :: ps, _ => rw [pieceChars_cons_cons]; simp

theorem length_le_pieceChars (pieces : List Nat) : pieces.length ≤ (pieceChars pieces).length := by
  induction pieces with
  | nil => exact Nat.zero_le _
  | cons p ps ih =>
    have hp := List.length_pos_iff.2 (Chars.hexDigits_ne_nil p)
    cases ps with
    | nil => rw [pieceChars_singleton]; exact hp
    | cons q ps =>
      simp only [pieceChars_cons_cons, List.length_append, List.length_cons] at ih ⊢
      omega

/-- The digits at the front of a piece that ends or that a colon follows. -/
theorem takeWhile_hexDigits {p : Nat} (hp : p < 0x10000) {rest : List Char}
    (hrest : ∀ c ∈ rest.head?, Chars.isHexDigit c = false) :
    ((Chars.hexDigits p ++ rest).take 4).takeWhile Chars.isHexDigit = Chars.hexDigits p :=
  Chars.takeWhile_take_run (fun _ hc => Chars.isHexDigit_of_mem_hexDigits hc) hrest
    (Chars.length_hexDigits_le (k := 3) hp)

/-- A piece is read, whether it is the last or another one follows. -/
theorem readPieces?_piece {d : PieceDraft} {p : Nat} (hp : p < 0x10000) (hcount : d.count ≠ 8)
    {fuel : Nat} {rest : List Char} {result : Option (List Nat)}
    (h : (rest = [] ∧ (d.put [p]).finish? = result) ∨
      ∃ r, r ≠ [] ∧ rest = ':' :: r ∧ readPieces? (d.put [p]) fuel r = result) :
    readPieces? d (fuel + 1) (Chars.hexDigits p ++ rest) = result := by
  have hhead : ∀ c ∈ rest.head?, Chars.isHexDigit c = false := by
    rintro c hc
    rcases h with ⟨rfl, -⟩ | ⟨r, -, rfl, -⟩
    · cases hc
    · obtain rfl := Option.some.inj hc
      rfl
  have hdigits := takeWhile_hexDigits hp hhead
  have hdrop : (Chars.hexDigits p ++ rest).drop (Chars.hexDigits p).length = rest := List.drop_left
  have hnumber : (Chars.hexDigits p).foldl (fun n c => n * 16 + Chars.hexValue c) 0 = p :=
    Chars.hexNumber_hexDigits p
  obtain ⟨c, t, hct, hc⟩ := Chars.exists_hexDigits_eq_cons p
  have hcolon : c ≠ ':' := by
    rintro rfl
    cases hc
  rw [hct, List.cons_append] at hdigits hdrop ⊢
  rw [hct] at hnumber
  unfold readPieces?
  rw [if_neg hcount]
  split
  · next heq => exact absurd (List.cons.inj heq).1 hcolon
  · simp only [hdigits, hdrop, hnumber]
    rcases h with ⟨rfl, h⟩ | ⟨r, hr, rfl, h⟩
    · exact h
    · obtain ⟨e, r, rfl⟩ := List.exists_cons_of_ne_nil hr
      exact h

/-- Pieces are read one after the other. -/
theorem readPieces?_pieces {ps : List Nat} (hne : ps ≠ []) (hps : ∀ p ∈ ps, p < 0x10000)
    {d : PieceDraft} (hcount : d.count + ps.length ≤ 8) (fuel : Nat) :
    readPieces? d (ps.length + fuel) (pieceChars ps) = (d.put ps).finish? ∧
      ∀ r, readPieces? d (ps.length + fuel) (pieceChars ps ++ ':' :: ':' :: r)
        = readPieces? (d.put ps) fuel (':' :: r) := by
  induction ps generalizing d with
  | nil => exact absurd rfl hne
  | cons p ps ih =>
    have hp := hps p List.mem_cons_self
    have hd : d.count ≠ 8 := by
      rw [List.length_cons] at hcount
      omega
    have hfuel : (p :: ps).length + fuel = ps.length + fuel + 1 := by
      rw [List.length_cons]
      omega
    rw [hfuel]
    cases ps with
    | nil =>
      rw [pieceChars_singleton]
      constructor
      · rw [← List.append_nil (Chars.hexDigits p)]
        exact readPieces?_piece hp hd (.inl ⟨rfl, rfl⟩)
      · intro r
        refine readPieces?_piece hp hd (.inr ⟨_, List.cons_ne_nil _ _, rfl, ?_⟩)
        rw [List.length_nil, Nat.zero_add]
    | cons q ps =>
      have hput : (d.put [p]).count + (q :: ps).length ≤ 8 := by
        rw [PieceDraft.count_put]
        simp only [List.length_cons, List.length_nil] at hcount ⊢
        omega
      obtain ⟨hlast, hgap⟩ := ih (List.cons_ne_nil _ _)
        (fun e he => hps e (List.mem_cons_of_mem _ he)) hput
      have hrest := pieceChars_ne_nil (List.cons_ne_nil q ps)
      rw [PieceDraft.put_put] at hlast hgap
      rw [pieceChars_cons_cons]
      constructor
      · exact readPieces?_piece hp hd (.inr ⟨_, hrest, rfl, hlast⟩)
      · intro r
        rw [List.append_assoc, List.cons_append]
        exact readPieces?_piece hp hd (.inr ⟨_, by simp [hrest], rfl, hgap r⟩)

/-- The longest run of zeros is a run of zeros. -/
theorem exists_longestZeros (pieces : List Nat) : ∃ before after,
    pieces = before ++ List.replicate (longestZeros pieces).2 0 ++ after ∧
      before.length = (longestZeros pieces).1 := by
  suffices ∀ (l before : List Nat) (best : Nat × Nat), pieces = before ++ l →
      (∃ a b, pieces = a ++ List.replicate best.2 0 ++ b ∧ a.length = best.1) →
      ∃ a b, pieces = a ++ List.replicate (longestZeros.go before.length best l).2 0 ++ b ∧
        a.length = (longestZeros.go before.length best l).1 from
    this pieces [] (0, 0) rfl ⟨[], pieces, rfl, rfl⟩
  intro l
  induction l with
  | nil => exact fun before best _ hbest => hbest
  | cons p l ih =>
    intro before best hsplit hbest
    have hnext := ih (before ++ [p])
    rw [List.length_append, List.length_singleton] at hnext
    rw [longestZeros.go]
    refine hnext _ (by rw [hsplit, List.append_assoc]; rfl) ?_
    split
    · have hrun := List.takeWhile_append_dropWhile (p := (· == 0)) (l := p :: l)
      have hzeros : (p :: l).takeWhile (· == 0)
          = List.replicate ((p :: l).takeWhile (· == 0)).length 0 :=
        List.eq_replicate_iff.2 ⟨rfl, fun q hq => by simpa using List.mem_takeWhile_imp hq⟩
      refine ⟨before, (p :: l).dropWhile (· == 0), ?_, rfl⟩
      rw [List.append_assoc, ← hzeros, hrun, hsplit]
    · exact hbest

/-- The pieces after the gap are read with those before it put aside. -/
theorem readPieces?_afterGap {before after : List Nat}
    (hlength : before.length + 1 + after.length ≤ 8) (hafter : ∀ p ∈ after, p < 0x10000)
    (fuel : Nat) :
    readPieces? ⟨some before, []⟩ (after.length + (fuel + 1)) (pieceChars after)
      = some (before ++ List.replicate (8 - before.length - after.length) 0 ++ after) := by
  by_cases hne : after = []
  · subst hne
    rw [List.length_nil, Nat.zero_add]
    rfl
  · have hcount : (PieceDraft.mk (some before) []).count + after.length ≤ 8 := by
      show 0 + (before.length + 1) + after.length ≤ 8
      omega
    rw [(readPieces?_pieces hne hafter hcount _).1]
    rfl

theorem readPieces?_gap {before : List Nat} (hbefore : before.length < 8) (fuel : Nat)
    (r : List Char) :
    readPieces? ⟨none, before⟩ (fuel + 1) (':' :: r) = readPieces? ⟨some before, []⟩ fuel r := by
  have hcount : (PieceDraft.mk none before).count ≠ 8 := by
    show before.length + 0 ≠ 8
    omega
  rw [readPieces?, if_neg hcount]
  rfl

theorem readLongAddress?_pieceChars {pieces : List Nat} (hne : pieces ≠ []) {r : List Char}
    (hr : 2 ≤ (pieceChars pieces ++ r).length) :
    readLongAddress? (pieceChars pieces ++ r)
      = readPieces? ⟨none, []⟩ ((pieceChars pieces ++ r).length + 1) (pieceChars pieces ++ r) := by
  obtain ⟨c, t, hct, hc⟩ : ∃ c t, pieceChars pieces ++ r = c :: t ∧
      Chars.isHexDigit c = true := by
    obtain ⟨p, ps, rfl⟩ := List.exists_cons_of_ne_nil hne
    obtain ⟨c, t, hct, hc⟩ := Chars.exists_hexDigits_eq_cons p
    cases ps with
    | nil => exact ⟨c, t ++ r, by rw [pieceChars_singleton, hct]; rfl, hc⟩
    | cons q ps => exact ⟨c, _, by rw [pieceChars_cons_cons, hct]; rfl, hc⟩
  have hcolon : c ≠ ':' := by
    rintro rfl
    cases hc
  rw [hct] at hr ⊢
  cases t with
  | nil => exact absurd hr (by simp)
  | cons d t => exact if_neg hcolon

/-- A long address without a gap is read. -/
theorem readLongAddress?_inFull {pieces : List Nat} (hlength : pieces.length = 8)
    (hpieces : ∀ p ∈ pieces, p < 0x10000) : readLongAddress? (pieceChars pieces) = some pieces := by
  have hne : pieces ≠ [] := by
    rintro rfl
    cases hlength
  have hchars := length_le_pieceChars pieces
  have hread := readLongAddress?_pieceChars hne (r := []) (by rw [List.append_nil]; omega)
  obtain ⟨fuel, hfuel⟩ := Nat.exists_eq_add_of_le (Nat.le_succ_of_le hchars)
  rw [List.append_nil, Nat.add_one, hfuel,
    (readPieces?_pieces hne hpieces (d := ⟨none, []⟩) (by rw [hlength]; decide) fuel).1] at hread
  rw [hread]
  exact if_pos hlength

/-- The gap of a long address is filled with as many zeros as pieces are missing. -/
theorem readLongAddress?_withGap {before after : List Nat}
    (hlength : before.length + 1 + after.length ≤ 8) (hbefore : ∀ p ∈ before, p < 0x10000)
    (hafter : ∀ p ∈ after, p < 0x10000) :
    readLongAddress? (pieceChars before ++ [':', ':'] ++ pieceChars after)
      = some (before ++ List.replicate (8 - before.length - after.length) 0 ++ after) := by
  have hread := readPieces?_afterGap hlength hafter
  have hchars := length_le_pieceChars after
  by_cases hne : before = []
  · subst hne
    obtain ⟨fuel, hfuel⟩ := Nat.exists_eq_add_of_le hchars
    have hshow : readLongAddress? (pieceChars [] ++ [':', ':'] ++ pieceChars after)
        = readPieces? ⟨some [], []⟩ ((pieceChars after).length + 1) (pieceChars after) := rfl
    rw [hshow, hfuel, Nat.add_assoc]
    exact hread fuel
  · have hfront := length_le_pieceChars before
    have htext : pieceChars before ++ [':', ':'] ++ pieceChars after
        = pieceChars before ++ ':' :: ':' :: pieceChars after := by simp
    obtain ⟨fuel, hfuel⟩ : ∃ fuel,
        (pieceChars before ++ ':' :: ':' :: pieceChars after).length + 1
          = before.length + (after.length + (fuel + 1) + 1) := by
      refine ⟨(pieceChars before ++ ':' :: ':' :: pieceChars after).length
        - before.length - after.length - 1, ?_⟩
      simp only [List.length_append, List.length_cons]
      omega
    have htwo : 2 ≤ (pieceChars before ++ ':' :: ':' :: pieceChars after).length := by
      simp only [List.length_append, List.length_cons]
      omega
    have hcount : (PieceDraft.mk none []).count + before.length ≤ 8 := by
      show 0 + before.length ≤ 8
      omega
    have hput : (PieceDraft.mk none []).put before = ⟨none, before⟩ := rfl
    rw [htext, readLongAddress?_pieceChars hne htwo, hfuel,
      (readPieces?_pieces hne hbefore hcount _).2, hput, readPieces?_gap (by omega)]
    exact hread fuel

/-- **A long address is read as it was written**: `readLongAddress?` undoes `longAddressChars`. -/
theorem readLongAddress?_longAddressChars {pieces : List Nat} (hlength : pieces.length = 8)
    (hpieces : ∀ p ∈ pieces, p < 0x10000) :
    readLongAddress? (longAddressChars pieces) = some pieces := by
  obtain ⟨before, after, hsplit, hbefore⟩ := exists_longestZeros pieces
  unfold longAddressChars
  generalize longestZeros pieces = run at hsplit hbefore ⊢
  obtain ⟨start, length⟩ := run
  simp only at hsplit hbefore ⊢
  split
  · exact readLongAddress?_inFull hlength hpieces
  · next hlong =>
    have htake : pieces.take start = before := by
      rw [hsplit, List.append_assoc, ← hbefore, List.take_left]
    have hdrop : pieces.drop (start + length) = after := by
      have hfront : (before ++ List.replicate length 0).length = start + length := by
        rw [List.length_append, List.length_replicate, hbefore]
      rw [hsplit, ← hfront, List.drop_left]
    have htotal : before.length + length + after.length = 8 := by
      rw [← hlength, hsplit, List.length_append, List.length_append, List.length_replicate]
    have hzeros : 8 - before.length - after.length = length := by omega
    rw [htake, hdrop, readLongAddress?_withGap (by omega)
      (fun p hp => hpieces p (by rw [hsplit]; simp [hp]))
      (fun p hp => hpieces p (by rw [hsplit]; simp [hp])), hzeros, ← hsplit]

/-! ## What is read -/

/-- A draft of at most eight pieces of two bytes. -/
structure PieceDraft.Fits (d : PieceDraft) : Prop where
  count : d.count ≤ 8
  before : ∀ l, d.beforeGap = some l → ∀ p ∈ l, p < 0x10000
  current : ∀ p ∈ d.current, p < 0x10000

theorem PieceDraft.Fits.put {d : PieceDraft} (h : d.Fits) {ps : List Nat}
    (hcount : d.count + ps.length ≤ 8) (hps : ∀ p ∈ ps, p < 0x10000) : (d.put ps).Fits :=
  ⟨by rwa [count_put], h.before, fun p hp => (List.mem_append.1 hp).elim (h.current p) (hps p)⟩

theorem PieceDraft.Fits.finish {d : PieceDraft} (h : d.Fits) {pieces : List Nat}
    (hfinish : d.finish? = some pieces) : pieces.length = 8 ∧ ∀ p ∈ pieces, p < 0x10000 := by
  obtain ⟨gap, current⟩ := d
  cases gap with
  | none =>
    obtain ⟨hlength, heq⟩ := Option.ite_none_right_eq_some.1 hfinish
    obtain rfl := Option.some.inj heq
    exact ⟨hlength, h.current⟩
  | some l =>
    obtain rfl := Option.some.inj hfinish
    have hcount : current.length + (l.length + 1) ≤ 8 := h.count
    constructor
    · simp only [List.length_append, List.length_replicate]
      omega
    · intro p hp
      rcases List.mem_append.1 hp with hp | hp
      · rcases List.mem_append.1 hp with hp | hp
        · exact h.before l rfl p hp
        · rw [(List.mem_replicate.1 hp).2]
          decide
      · exact h.current p hp

theorem readByte?_le {s rest : List Char} {n : Nat} (h : readByte? s = some (n, rest)) :
    n ≤ 255 := by
  unfold readByte? at h
  simp only [Option.ite_none_left_eq_some, Option.some.injEq, Prod.mk.injEq, Bool.or_eq_true,
    decide_eq_true_eq, not_or] at h
  obtain ⟨⟨⟨-, hn⟩, -⟩, rfl, -⟩ := h
  exact Nat.le_of_not_lt hn

theorem readBytes?_lt {s : List Char} {two : List Nat} (h : readBytes? s = some two) :
    two.length = 2 ∧ ∀ p ∈ two, p < 0x10000 := by
  have hafter : ∀ {r rest : List Char} {n : Nat}, readBytes?.afterDot? r = some (n, rest) →
      n ≤ 255 := by
    intro r rest n hr
    unfold readBytes?.afterDot? at hr
    split at hr
    · exact readByte?_le hr
    · cases hr
  unfold readBytes? at h
  simp only [Option.bind_eq_bind, Option.bind_eq_some_iff, Prod.exists] at h
  obtain ⟨a, r₁, ha, b, r₂, hb, c, r₃, hc, d, r₄, hd, h⟩ := h
  obtain rfl := Option.some.inj (Option.ite_none_right_eq_some.1 h).2
  have hsmall := readByte?_le ha
  have hb' := hafter hb
  have hc' := hafter hc
  have hd' := hafter hd
  refine ⟨rfl, fun p hp => ?_⟩
  simp only [List.mem_cons, List.not_mem_nil, or_false] at hp
  rcases hp with rfl | rfl <;> omega

theorem readPieces?_fits {d : PieceDraft} {fuel : Nat} {s : List Char} {pieces : List Nat}
    (hd : d.Fits) (h : readPieces? d fuel s = some pieces) :
    pieces.length = 8 ∧ ∀ p ∈ pieces, p < 0x10000 := by
  have hvalue : ∀ s : List Char, ((s.take 4).takeWhile Chars.isHexDigit).foldl
      (fun n c => n * 16 + Chars.hexValue c) 0 < 0x10000 := by
    intro s
    refine Nat.lt_of_lt_of_le (Chars.hexNumber_lt _) ?_
    have hlength : ((s.take 4).takeWhile Chars.isHexDigit).length ≤ 4 :=
      Nat.le_trans (List.takeWhile_prefix _).length_le (List.length_take_le 4 s)
    exact Nat.pow_le_pow_right (by decide) hlength
  have hput : ∀ (d : PieceDraft) (p : Nat), d.Fits → ¬d.count = 8 → p < 0x10000 →
      (d.put [p]).Fits := by
    intro d p hd hcount hp
    refine hd.put ?_ (by simpa using hp)
    have hle := hd.count
    show d.count + 1 ≤ 8
    omega
  fun_induction readPieces? d fuel s with
  | case1 => cases h
  | case2 => exact hd.finish h
  | case3 => cases h
  | case4 => cases h
  | case5 d fuel hcount r hgap _ ih =>
    obtain ⟨gap, current⟩ := d
    obtain rfl : gap = none := by simpa using hgap
    have hle := hd.count
    refine ih ⟨?_, fun l hl => ?_, fun p hp => absurd hp List.not_mem_nil⟩ h
    · change current.length + 0 ≤ 8 at hle
      change ¬current.length + 0 = 8 at hcount
      show 0 + (current.length + 1) ≤ 8
      omega
    · obtain rfl := Option.some.inj hl
      exact hd.current
  | case6 d fuel hcount s _ digits value next =>
    exact (hput d value hd hcount (hvalue s)).finish h
  | case7 => cases h
  | case8 d fuel hcount s _ digits value next r _ _ _ ih =>
    exact ih (hput d value hd hcount (hvalue s)) h
  | case9 => cases h
  | case10 d fuel hcount s _ digits tail _ hroom two htwo =>
    obtain ⟨hlength, hsmall⟩ := readBytes?_lt htwo
    simp only [Bool.or_eq_true, decide_eq_true_eq, not_or, Nat.not_lt] at hroom
    exact (hd.put (by rw [hlength]; omega) hsmall).finish h
  | case11 => cases h
  | case12 => cases h

/-- What is read are eight pieces of two bytes. -/
theorem readLongAddress?_fits {s : List Char} {pieces : List Nat}
    (h : readLongAddress? s = some pieces) : pieces.length = 8 ∧ ∀ p ∈ pieces, p < 0x10000 := by
  unfold readLongAddress? at h
  split at h
  · split_ifs at h
    · exact readPieces?_fits ⟨by decide, by simp, by simp⟩ h
    · exact readPieces?_fits ⟨by decide, by simp, by simp⟩ h
  · cases h

end RestCase.Url
