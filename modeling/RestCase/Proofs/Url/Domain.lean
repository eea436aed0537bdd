/-
# RestCase.Proofs.Url.Domain — domain names written in ASCII

A domain name that was written in ASCII is read as itself (`asciiDomain?_settled`): each of its
labels is written in ASCII already (`asciiLabel?_settled`).  A label in Punycode is read back to the
label that it stands for, whose characters were folded before and fold to themselves.

`LawfulNames` is what the proofs about URLs rely on, stated of any mapping of names; `asciiDomain?`
has it.  The other lemmas are about the percent encoding that a host is read through (`mem_encode`,
`decode?_of_not_mem`).
-/
import Mathlib.Data.List.Basic
import RestCase.Proofs.Url.Folding
import RestCase.Proofs.Url.Punycode
import RestCase.Url.Percent

namespace RestCase.Chars

/-! ## Marks -/

theorem runs_cons (word : List Char) (others : List String) :
    runs (String.ofList word :: others) = (words word).map Run.ofWord ++ runs others := by
  simp [runs]

/-- No mark is ASCII.  The lines of each table are turned into characters first, which evaluation
then only has to cut into words. -/
theorem not_ascii_of_mem_marks :
    ((nonspacingMarks ++ spacingMarks ++ enclosingMarks).all fun r => Nat.ble 0x80 r.first)
      = true := by
  unfold nonspacingMarks spacingMarks enclosingMarks
  repeat rw [runs_cons]
  decide +kernel

/-- An ASCII character is no mark. -/
theorem marks_of_ascii {c : Char} (h : c.toNat < 0x80) :
    Category.marks.any (·.holds c) = false := by
  have hrun : ∀ r ∈ nonspacingMarks ++ spacingMarks ++ enclosingMarks, r.mem c.toNat = false := by
    intro r hr
    have hfirst := Nat.le_of_ble_eq_true (List.all_eq_true.1 not_ascii_of_mem_marks r hr)
    rw [Bool.eq_false_iff, ne_eq, Run.mem_iff]
    omega
  have hin : ∀ l : List Run, (∀ r ∈ l, r ∈ nonspacingMarks ++ spacingMarks ++ enclosingMarks) →
      inRuns l c = false := fun l hl =>
    List.any_eq_false.2 fun r hr => by simp [hrun r (hl r hr)]
  have hnonspacing := hin nonspacingMarks fun r hr => by simp [hr]
  have hspacing := hin spacingMarks fun r hr => by simp [hr]
  have henclosing := hin enclosingMarks fun r hr => by simp [hr]
  simp [Category.marks, Category.holds, Category.members, hnonspacing, hspacing, henclosing]

end RestCase.Chars

namespace RestCase.Url

open RestCase.Chars (Category)

/-! ## Percent encoding -/

/-- An encoded text is made of characters that are not reserved and of bytes written in
hexadecimal. -/
theorem mem_encode {reserved : Char → Bool} {s : List Char} {c : Char} (h : c ∈ encode reserved s) :
    (c ∈ s ∧ reserved c = false) ∨ c = '%' ∨ ∃ d < 16, c = upperHex d := by
  obtain ⟨e, he, hc⟩ := List.mem_flatMap.1 h
  unfold encodeChar at hc
  split at hc
  · obtain ⟨b, -, hb⟩ := List.mem_flatMap.1 hc
    have hbyte : b.toNat < 256 := b.toNat_lt
    simp only [encodeByte, List.mem_cons, List.not_mem_nil, or_false] at hb
    rcases hb with rfl | rfl | rfl
    · exact .inr (.inl rfl)
    · exact .inr (.inr ⟨_, by omega, rfl⟩)
    · exact .inr (.inr ⟨_, by omega, rfl⟩)
  · next hreserved =>
    obtain rfl := List.mem_singleton.1 hc
    exact .inl ⟨he, by simpa using hreserved⟩

theorem decodeBytes_of_not_mem {s : List Char} (h : '%' ∉ s) :
    decodeBytes s = s.flatMap String.utf8EncodeChar := by
  fun_induction decodeBytes s with
  | case1 => rfl
  | case2 => exact absurd List.mem_cons_self h
  | case3 => exact absurd List.mem_cons_self h
  | case4 c r _ ih =>
    rw [List.flatMap_cons, ih fun hr => h (List.mem_cons_of_mem _ hr)]

/-- A text without a percent sign is decoded to itself. -/
theorem decode?_of_not_mem {s : List Char} (h : '%' ∉ s) : decode? s = some s := by
  have hbytes : ByteArray.mk (decodeBytes s).toArray = s.utf8Encode := by
    rw [decodeBytes_of_not_mem h, List.utf8Encode, ← List.data_toByteArray]
  have hvalid : s.utf8Encode.IsValidUTF8 := .intro s rfl
  have htext : String.fromUTF8 s.utf8Encode hvalid = String.ofList s := rfl
  unfold decode? String.fromUTF8?
  rw [hbytes, dif_pos hvalid, htext, Option.map_some, String.toList_ofList]

/-! ## Labels -/

/-- A character of a name in ASCII: it has no other case and delimits nothing. -/
structure IsSettledChar (c : Char) : Prop where
  ascii : c.toNat < 0x80
  lower : c.toLower = c
  allowed : forbiddenInDomain c = false

instance (c : Char) : Decidable (IsSettledChar c) :=
  decidable_of_iff (c.toNat < 0x80 ∧ c.toLower = c ∧ forbiddenInDomain c = false)
    ⟨fun ⟨hascii, hlower, hallowed⟩ => ⟨hascii, hlower, hallowed⟩,
    fun h => ⟨h.ascii, h.lower, h.allowed⟩⟩

/-- Such a character stands for itself. -/
theorem IsSettledChar.folded {c : Char} (h : IsSettledChar c) : foldedChar c = [c] := by
  rw [foldedChar_ascii h.ascii, h.lower]

theorem lower_of_foldedChar {c : Char} (hascii : c.toNat < 0x80) (h : foldedChar c = [c]) :
    c.toLower = c := by
  rw [foldedChar_ascii hascii] at h
  exact List.singleton_inj.1 h

/-- A small letter or a digit, with which every name is written as it is. -/
def isNameChar (c : Char) : Bool := ('a' ≤ c && c ≤ 'z') || Chars.isDigit c

theorem ascii_of_isNameChar {c : Char} (h : isNameChar c = true) : c.toNat < 0x80 := by
  simp only [isNameChar, Chars.isDigit, Bool.or_eq_true, Bool.and_eq_true, decide_eq_true_eq,
    Char.le_def, UInt32.le_iff_toNat_le] at h
  rcases h with h | h <;> exact Nat.lt_of_le_of_lt h.2 (by decide)

/-- Neither a dot nor the hyphen of the mark of Punycode is such a character. -/
theorem settled_of_isNameChar {c : Char} (h : isNameChar c = true) :
    IsSettledChar c ∧ c ≠ '.' ∧ c ≠ '-' := by
  have hall : ∀ n < 0x80, isNameChar (Char.ofNat n) = true →
      IsSettledChar (Char.ofNat n) ∧ Char.ofNat n ≠ '.' ∧ Char.ofNat n ≠ '-' := by
    decide
  simpa using hall c.toNat (ascii_of_isNameChar h) (by simpa using h)

/-- A label that is its own ASCII form. -/
structure IsSettledLabel (label : List Char) : Prop where
  same : asciiLabel? label = some label
  chars : ∀ c ∈ label, IsSettledChar c
  not_dot : '.' ∉ label

theorem isSettledChar_digitChar {d : Nat} (h : d < 36) :
    IsSettledChar (Punycode.digitChar d) ∧ Punycode.digitChar d ≠ '.' := by
  revert d
  decide

theorem isSettledChar_of_mem_mark {c : Char} (h : c ∈ encodedMark) : IsSettledChar c ∧ c ≠ '.' := by
  simp only [encodedMark, List.mem_cons, List.not_mem_nil, or_false] at h
  rcases h with rfl | rfl | rfl | rfl
  all_goals decide

/-- A digit of a Punycode number is ASCII and delimits nothing. -/
theorem of_digitOf? {c : Char} (h : (Punycode.digitOf? c).isSome = true) :
    c.toNat < 0x80 ∧ forbiddenInDomain c = false := by
  have hascii : c.toNat < 0x80 := by
    simp only [Punycode.digitOf?, Char.le_def, UInt32.le_iff_toNat_le] at h
    split_ifs at h with hlower hupper hdigit
    · exact Nat.lt_of_le_of_lt hlower.2 (by decide)
    · exact Nat.lt_of_le_of_lt hupper.2 (by decide)
    · exact Nat.lt_of_le_of_lt hdigit.2 (by decide)
    · cases h
  have hall : ∀ n < 0x80, (Punycode.digitOf? (Char.ofNat n)).isSome = true →
      forbiddenInDomain (Char.ofNat n) = false := by
    decide
  exact ⟨hascii, by simpa using hall c.toNat hascii (by simpa using h)⟩

/-- Of a label that can stand in a name the ASCII characters delimit nothing. -/
theorem forbiddenInDomain_of_labelAllowed {label : List Char} (h : labelAllowed label = true)
    {c : Char} (hc : c ∈ label) (hascii : c.toNat < 0x80) : forbiddenInDomain c = false := by
  have hallowed := List.all_eq_true.1 (Bool.and_eq_true_iff.1 h).1 c hc
  simpa [allowedInDomain, hascii] using hallowed

/-- A label in Punycode is made of digits, hyphens and ASCII characters of the label that it stands
for. -/
theorem isSettledChar_of_decode? {label inner : List Char} (hfold : ∀ c ∈ label, foldedChar c = [c])
    (hmark : encodedMark.isPrefixOf label = true)
    (hdecode : Punycode.decode? (label.drop 4) = some inner)
    (hallowed : labelAllowed inner = true) : ∀ c ∈ label, IsSettledChar c := by
  intro c hc
  have hsplit : label = encodedMark ++ label.drop 4 := by
    obtain ⟨r, hr⟩ := List.isPrefixOf_iff_prefix.1 hmark
    rw [← hr]
    rfl
  have hmem := hc
  rw [hsplit] at hc
  rcases List.mem_append.1 hc with hc | hc
  · exact (isSettledChar_of_mem_mark hc).1
  · rcases Punycode.mem_of_decode? hdecode hc with ⟨hinner, hascii⟩ | rfl | hdigit
    · exact ⟨hascii, lower_of_foldedChar hascii (hfold c hmem),
        forbiddenInDomain_of_labelAllowed hallowed hinner hascii⟩
    · decide
    · exact ⟨(of_digitOf? hdigit).1, lower_of_foldedChar (of_digitOf? hdigit).1 (hfold c hmem),
        (of_digitOf? hdigit).2⟩

/-- A label that had to be written in Punycode is read back to the label that it stands for. -/
theorem isSettledLabel_encode {label : List Char} (hfold : ∀ c ∈ label, foldedChar c = [c])
    (hdot : '.' ∉ label) (hallowed : labelAllowed label = true)
    (hsome : (label.any fun c => 0x80 ≤ c.toNat) = true) :
    IsSettledLabel (encodedMark ++ Punycode.encode label) := by
  have hchars : ∀ c ∈ encodedMark ++ Punycode.encode label, IsSettledChar c ∧ c ≠ '.' := by
    intro c hc
    rcases List.mem_append.1 hc with hc | hc
    · exact isSettledChar_of_mem_mark hc
    · rcases Punycode.mem_encode hc with ⟨hmem, hc'⟩ | rfl | ⟨d, hd, rfl⟩
      · exact ⟨⟨hc', lower_of_foldedChar hc' (hfold c hmem),
          forbiddenInDomain_of_labelAllowed hallowed hmem hc'⟩, fun heq => hdot (heq ▸ hmem)⟩
      · decide
      · exact isSettledChar_digitChar hd
  refine ⟨?_, fun c hc => (hchars c hc).1, fun hc => (hchars _ hc).2 rfl⟩
  have hmark : encodedMark.isPrefixOf (encodedMark ++ Punycode.encode label) = true :=
    List.isPrefixOf_iff_prefix.2 (List.prefix_append _ _)
  have hdrop : (encodedMark ++ Punycode.encode label).drop 4 = Punycode.encode label := rfl
  have hfolded : (label.all fun c => foldedChar c == [c]) = true :=
    List.all_eq_true.2 fun c hc => by simpa using hfold c hc
  unfold asciiLabel?
  rw [if_pos hmark, hdrop, Punycode.decode?_encode]
  simp only [hsome, hallowed, hfolded, Bool.and_self, if_true]

/-- A label in ASCII is its own ASCII form, if its characters were folded. -/
theorem asciiLabel?_settled {label written : List Char} (hfold : ∀ c ∈ label, foldedChar c = [c])
    (hdot : '.' ∉ label) (h : asciiLabel? label = some written) : IsSettledLabel written := by
  have hh := h
  unfold asciiLabel? at hh
  split at hh
  next hmark =>
    -- a label that came in Punycode stays as it is
    cases hdecode : Punycode.decode? (label.drop 4) with
    | none =>
      rw [hdecode] at hh
      cases hh
    | some inner =>
      rw [hdecode] at hh
      simp only [Option.ite_none_right_eq_some, Bool.and_eq_true, Option.some.injEq] at hh
      obtain ⟨⟨⟨-, hallowed⟩, -⟩, rfl⟩ := hh
      exact ⟨h, isSettledChar_of_decode? hfold hmark hdecode hallowed, hdot⟩
  next hmark =>
    simp only [Option.ite_none_right_eq_some] at hh
    obtain ⟨hallowed, hh⟩ := hh
    split at hh
    next hascii =>
      obtain rfl := Option.some.inj hh
      refine ⟨h, fun c hc => ?_, hdot⟩
      have hc' : c.toNat < 0x80 := by simpa using List.all_eq_true.1 hascii c hc
      exact ⟨hc', lower_of_foldedChar hc' (hfold c hc),
        forbiddenInDomain_of_labelAllowed hallowed hc hc'⟩
    next hascii =>
      obtain rfl := Option.some.inj hh
      exact isSettledLabel_encode hfold hdot hallowed (by simpa using hascii)

/-- A label of small letters and digits is written as it is. -/
theorem isSettledLabel_of_isNameChar {label : List Char}
    (h : ∀ c ∈ label, isNameChar c = true) : IsSettledLabel label := by
  have hchars : ∀ c ∈ label, IsSettledChar c := fun c hc => (settled_of_isNameChar (h c hc)).1
  refine ⟨?_, hchars, fun hdot => (settled_of_isNameChar (h '.' hdot)).2.1 rfl⟩
  have hmark : encodedMark.isPrefixOf label = false := by
    rw [Bool.eq_false_iff]
    intro hprefix
    have hhyphen : '-' ∈ label := (List.isPrefixOf_iff_prefix.1 hprefix).subset (by decide)
    exact (settled_of_isNameChar (h '-' hhyphen)).2.2 rfl
  have hascii : (label.all fun c => c.toNat < 0x80) = true :=
    List.all_eq_true.2 fun c hc => decide_eq_true (hchars c hc).ascii
  have hallowed : labelAllowed label = true := by
    have hall : label.all allowedInDomain = true := List.all_eq_true.2 fun c hc => by
      simp [allowedInDomain, (hchars c hc).ascii, (hchars c hc).allowed]
    unfold labelAllowed
    rw [hall, Bool.true_and]
    cases label with
    | nil => rfl
    | cons c r => exact congrArg Bool.not (Chars.marks_of_ascii (hchars c List.mem_cons_self).ascii)
  unfold asciiLabel?
  rw [hmark, hallowed, hascii]
  rfl

/-! ## Names -/

/-- A piece between the marks at which a text is split has no mark in it. -/
theorem of_mem_splitOnP {p : Char → Bool} {s piece : List Char} (h : piece ∈ s.splitOnP p) :
    ∀ c ∈ piece, c ∈ s ∧ p c = false := by
  induction s generalizing piece with
  | nil =>
    rw [List.splitOnP_nil, List.mem_singleton] at h
    rw [h]
    exact fun c hc => absurd hc List.not_mem_nil
  | cons d s ih =>
    rw [List.splitOnP_cons_eq_if_modifyHead] at h
    split at h
    next hd =>
      rcases List.mem_cons.1 h with rfl | h
      · exact fun c hc => absurd hc List.not_mem_nil
      · exact fun c hc => ⟨List.mem_cons_of_mem _ (ih h c hc).1, (ih h c hc).2⟩
    next hd =>
      cases hsplit : s.splitOnP p with
      | nil => exact absurd hsplit (List.splitOnP_ne_nil p s)
      | cons first others =>
        rw [hsplit] at h ih
        rcases List.mem_cons.1 h with rfl | h
        · intro c hc
          rcases List.mem_cons.1 hc with rfl | hc
          · exact ⟨List.mem_cons_self, by simpa using hd⟩
          · have := ih List.mem_cons_self c hc
            exact ⟨List.mem_cons_of_mem _ this.1, this.2⟩
        · intro c hc
          have := ih (List.mem_cons_of_mem _ h) c hc
          exact ⟨List.mem_cons_of_mem _ this.1, this.2⟩

theorem mem_intercalate {sep c : Char} {pieces : List (List Char)}
    (h : c ∈ [sep].intercalate pieces) : c = sep ∨ ∃ piece ∈ pieces, c ∈ piece := by
  induction pieces with
  | nil => cases h
  | cons first others ih =>
    cases others with
    | nil =>
      rw [List.intercalate_singleton] at h
      exact .inr ⟨first, List.mem_cons_self, h⟩
    | cons second others =>
      rw [List.intercalate_cons_cons, List.append_assoc, List.mem_append, List.mem_append,
        List.mem_singleton] at h
      rcases h with h | h | h
      · exact .inr ⟨first, List.mem_cons_self, h⟩
      · exact .inl h
      · exact (ih h).imp_right fun ⟨piece, hpiece, hc⟩ => ⟨piece, List.mem_cons_of_mem _ hpiece, hc⟩

theorem mapM_of_forall {α : Type} {f : α → Option α} {l : List α} (h : ∀ a ∈ l, f a = some a) :
    l.mapM f = some l := by
  induction l with
  | nil => rfl
  | cons a l ih =>
    rw [List.mapM_cons, h a List.mem_cons_self, ih fun b hb => h b (List.mem_cons_of_mem _ hb)]
    rfl

theorem exists_of_mapM {α β : Type} {f : α → Option β} {l : List α} {m : List β}
    (h : l.mapM f = some m) : m.length = l.length ∧ ∀ b ∈ m, ∃ a ∈ l, f a = some b := by
  induction l generalizing m with
  | nil =>
    obtain rfl := Option.some.inj h
    exact ⟨rfl, fun b hb => absurd hb List.not_mem_nil⟩
  | cons a l ih =>
    rw [List.mapM_cons] at h
    obtain ⟨b, hb, h⟩ := Option.bind_eq_some_iff.1 h
    obtain ⟨m', hm', h⟩ := Option.bind_eq_some_iff.1 h
    obtain rfl := Option.some.inj h
    obtain ⟨hlength, hexists⟩ := ih hm'
    refine ⟨congrArg (· + 1) hlength, fun d hd => ?_⟩
    rcases List.mem_cons.1 hd with rfl | hd
    · exact ⟨a, List.mem_cons_self, hb⟩
    · obtain ⟨e, he, hed⟩ := hexists d hd
      exact ⟨e, List.mem_cons_of_mem _ he, hed⟩

/-- A name of labels that are their own ASCII form is so itself. -/
theorem asciiDomain?_of_labels {labels : List (List Char)} (hne : labels ≠ [])
    (h : ∀ label ∈ labels, IsSettledLabel label) :
    asciiDomain? (['.'].intercalate labels) = some (['.'].intercalate labels) ∧
      ∀ c ∈ ['.'].intercalate labels, IsSettledChar c := by
  have hchars : ∀ c ∈ ['.'].intercalate labels, IsSettledChar c := by
    intro c hc
    rcases mem_intercalate hc with rfl | ⟨label, hlabel, hc⟩
    · decide
    · exact (h label hlabel).chars c hc
  refine ⟨?_, hchars⟩
  have hfold : (['.'].intercalate labels).flatMap foldedChar = ['.'].intercalate labels := by
    rw [List.flatMap_congr fun c hc => (hchars c hc).folded]
    exact List.flatMap_singleton' _
  have hsplit : (['.'].intercalate labels).splitOnP (· == '.') = labels :=
    List.splitOn_intercalate '.' (fun label hlabel => (h label hlabel).not_dot) hne
  have hmap : labels.mapM asciiLabel? = some labels :=
    mapM_of_forall fun label hlabel => (h label hlabel).same
  unfold asciiDomain?
  rw [hfold, hsplit, hmap, Option.map_some]

/-- **A name in ASCII is its own ASCII form** (`asciiDomain?`), and no delimiter stands in it
(`IsSettledChar`). -/
theorem asciiDomain?_settled {name domain : List Char} (h : asciiDomain? name = some domain) :
    asciiDomain? domain = some domain ∧ ∀ c ∈ domain, IsSettledChar c := by
  unfold asciiDomain? at h
  obtain ⟨labels, hlabels, rfl⟩ := Option.map_eq_some_iff.1 h
  obtain ⟨hlength, hexists⟩ := exists_of_mapM hlabels
  refine asciiDomain?_of_labels ?_ fun written hwritten => ?_
  · rintro rfl
    exact List.splitOnP_ne_nil _ _ (List.length_eq_zero_iff.1 hlength.symm)
  · obtain ⟨label, hlabel, heq⟩ := hexists written hwritten
    refine asciiLabel?_settled (fun c hc => ?_) (fun hdot => ?_) heq
    · obtain ⟨e, -, he⟩ := List.mem_flatMap.1 (of_mem_splitOnP hlabel c hc).1
      exact foldedChar_of_mem he
    · simpa using (of_mem_splitOnP hlabel '.' hdot).2

/-! ## What is relied on -/

/-- **What is relied on of a mapping of names.**  A name in ASCII is its own ASCII form, and nothing
that delimits the parts of a URL stands in it; and a name of small letters and digits is in ASCII
already. -/
class LawfulNames [Names] : Prop where
  settled {name written : List Char} : Names.toAscii? name = some written →
    Names.toAscii? written = some written ∧ ∀ c ∈ written, IsSettledChar c
  plain {labels : List (List Char)} : labels ≠ [] →
    (∀ label ∈ labels, label ≠ [] ∧ ∀ c ∈ label, isNameChar c = true) →
    Names.toAscii? (['.'].intercalate labels) = some (['.'].intercalate labels)

instance : LawfulNames where
  settled h := asciiDomain?_settled h
  plain hne h := (asciiDomain?_of_labels hne fun label hlabel =>
    isSettledLabel_of_isNameChar (h label hlabel).2).1

end RestCase.Url
