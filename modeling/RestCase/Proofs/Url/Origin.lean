/-
# RestCase.Proofs.Url.Origin — the server that an endpoint leads to

An endpoint without `://` is joined to the base URL of a run.  What is joined is the endpoint
without blanks around it, without the slashes at its front and, since the reader of URLs skips them,
without tabs and line breaks (`joinedPart`).  If that begins with two slashes of either kind, or
with a scheme (`leavesBase`), the reader takes a new authority from it, and nothing of the base but
its scheme counts any more (`join_leaves`).  In all other cases the URL has the scheme and the
authority of the base (`join_stays`), and the text of the URL is read as a URL with that scheme and
that authority (`parse_chars`).

`Settings.resolve_on_base` says which of the two it is for every base and endpoint, and
`Settings.exists_endpoints_off_base` has two endpoints that lead elsewhere.
-/
import RestCase.Proofs.Chars.Search
import RestCase.Proofs.Url.Authority
import RestCase.Run.Settings

namespace RestCase.Chars

theorem trim_infix (s : List Char) : trim s <:+: s := by
  have hend : trimEnd (trimStart s) <+: trimStart s := by
    unfold trimEnd
    rw [← List.reverse_suffix, List.reverse_reverse]
    exact List.dropWhile_suffix _
  exact hend.isInfix.trans (List.dropWhile_suffix _).isInfix

end RestCase.Chars

namespace RestCase.Text

theorem contains_of_trim {needle s : String} (h : contains needle (trim s) = true) :
    contains needle s = true := by
  unfold contains trim at h
  rw [String.toList_ofList] at h
  exact Chars.contains_iff.2 ((Chars.contains_iff.1 h).trans (Chars.trim_infix _))

end RestCase.Text

namespace RestCase.Url

/-! ## Reading a URL with a special scheme -/

theorem special_scheme {scheme : List Char} (h : kindOf scheme = .special) :
    scheme ∈ ["http".toList, "ws".toList, "https".toList, "wss".toList, "ftp".toList] := by
  unfold kindOf at h
  split_ifs at h with hfile hport
  unfold defaultPort? at hport
  have hback : ∀ {name : String}, String.ofList scheme = name → scheme = name.toList := by
    rintro name rfl
    exact String.toList_ofList.symm
  split at hport
  next heq => simp [hback heq]
  next heq => simp [hback heq]
  next heq => simp [hback heq]
  next heq => simp [hback heq]
  next heq => simp [hback heq]
  next => cases hport

/-- A special scheme is a word of small letters. -/
theorem letters_of_special {scheme : List Char} (h : kindOf scheme = .special) :
    scheme ≠ [] ∧ (∀ c ∈ scheme, Chars.isLetter c = true) ∧ Chars.toLower scheme = scheme := by
  have hmem := special_scheme h
  simp only [List.mem_cons, List.not_mem_nil, or_false] at hmem
  rcases hmem with rfl | rfl | rfl | rfl | rfl
  all_goals exact ⟨by decide, List.all_eq_true.1 (by decide), by decide⟩

/-- A special scheme and the colon behind it are read. -/
theorem splitScheme?_special {scheme : List Char} (h : kindOf scheme = .special) (r : List Char) :
    splitScheme? (scheme ++ ':' :: r) = some (scheme, r) := by
  obtain ⟨hne, hletters, hlower⟩ := letters_of_special h
  have hall : ∀ c ∈ scheme, isSchemeChar c = true := fun c hc => by
    simp [isSchemeChar, hletters c hc]
  have hcolon : ∀ c ∈ (':' :: r).head?, isSchemeChar c = false := by
    rintro _ ⟨⟩
    decide
  have htake : (scheme ++ ':' :: r).takeWhile isSchemeChar = scheme :=
    Chars.takeWhile_run hall hcolon
  have hdrop : (scheme ++ ':' :: r).dropWhile isSchemeChar = ':' :: r :=
    Chars.dropWhile_run hall hcolon
  have hhead : (scheme ++ ':' :: r).head?.map Chars.isLetter = some true := by
    obtain ⟨c, t, rfl⟩ := List.exists_cons_of_ne_nil hne
    simp [hletters c List.mem_cons_self]
  unfold splitScheme?
  rw [htake, hdrop, hhead, hlower]
  rfl

/-- Taking characters off an end stops at a front that has none of them. -/
theorem dropWhile_end_append {p : Char → Bool} {front : List Char} (hne : front ≠ [])
    (hfront : ∀ c ∈ front, ¬p c = true) (rest : List Char) :
    ((front ++ rest).reverse.dropWhile p).reverse
      = front ++ (rest.reverse.dropWhile p).reverse := by
  have hend : front.reverse.dropWhile p = front.reverse := by
    obtain ⟨c, t, hct⟩ := List.exists_cons_of_ne_nil (List.reverse_ne_nil_iff.2 hne)
    rw [hct]
    refine List.dropWhile_cons_of_neg (hfront c (List.mem_reverse.1 ?_))
    rw [hct]
    exact List.mem_cons_self
  rw [List.reverse_append, List.dropWhile_append]
  split
  · next hempty => rw [hend, List.isEmpty_iff.1 hempty, List.reverse_reverse, List.reverse_nil,
      List.append_nil]
  · rw [List.reverse_append, List.reverse_reverse]

/-- A text without blanks and controls has no tabs and line breaks to be left out. -/
theorem filter_visible {s : List Char} (h : ∀ c ∈ s, 0x20 < c.toNat) :
    s.filter (fun c => !(c == '\t' || c == '\n' || c == '\r')) = s := by
  refine List.filter_eq_self.2 fun c hc => ?_
  have hvisible := h c hc
  have hne : ∀ d : Char, d.toNat ≤ 0x20 → c ≠ d := by
    rintro d hd rfl
    omega
  simp [hne '\t' (by decide), hne '\n' (by decide), hne '\r' (by decide)]

/-- The reader of URLs takes nothing off a front without blanks, and nothing but blanks off what
follows. -/
theorem cleaned_append {front rest : List Char} (hne : front ≠ [])
    (hfront : ∀ c ∈ front, 0x20 < c.toNat) (hrest : FollowsAuthority rest) :
    ∃ rest', cleaned (front ++ rest) = front ++ rest' ∧ FollowsAuthority rest' := by
  have houter : ∀ c ∈ front, ¬(decide (c.toNat ≤ 0x20)) = true := fun c hc => by
    simpa using hfront c hc
  have hstart : (front ++ rest).dropWhile (fun c => c.toNat ≤ 0x20) = front ++ rest := by
    obtain ⟨c, t, rfl⟩ := List.exists_cons_of_ne_nil hne
    exact List.dropWhile_cons_of_neg (houter c List.mem_cons_self)
  refine ⟨(rest.reverse.dropWhile fun c => c.toNat ≤ 0x20).reverse.filter
    fun c => !(c == '\t' || c == '\n' || c == '\r'), ?_, ?_⟩
  · unfold cleaned
    simp only
    rw [hstart, dropWhile_end_append hne houter, List.filter_append, filter_visible hfront]
  · have hprefix : (rest.reverse.dropWhile fun c => c.toNat ≤ 0x20).reverse <+: rest := by
      rw [← List.reverse_suffix, List.reverse_reverse]
      exact List.dropWhile_suffix _
    refine (hrest.of_prefix hprefix).filter fun c hc => ?_
    rw [Bool.not_eq_true']
    by_contra hblank
    simp only [Bool.or_eq_true, beq_iff_eq, Bool.not_eq_false] at hblank
    rcases hblank with (rfl | rfl) | rfl <;> cases hc

/-! ## What reading gives -/

/-- A URL with a special scheme as reading gives it. -/
structure Settled [Names] (u : Url) : Prop where
  special : kindOf u.scheme = .special
  authority : ∃ a, u.authority = some a ∧ a.Settled u.scheme
  route : ∃ l, u.route = .segments l

/-- What stands behind the authority of a URL. -/
theorem exists_chars_eq {u : Url} {a : Authority} (ha : u.authority = some a)
    {l : List (List Char)} (hl : u.route = .segments l) : ∃ rest,
      u.chars = u.scheme ++ ':' :: '/' :: '/' :: (a.chars ++ rest) ∧ FollowsAuthority rest := by
  obtain ⟨scheme, authority, route, query, fragment⟩ := u
  obtain rfl : authority = some a := ha
  obtain rfl : route = .segments l := hl
  -- what follows begins with the first of path, query and fragment that is there
  have hrest : ∀ tail : List Char, FollowsAuthority tail →
      FollowsAuthority ((l.flatMap fun s => '/' :: s) ++ tail) := by
    intro tail htail
    cases l with
    | cons first others => exact fun c hc => by cases hc; rfl
    | nil => exact htail
  cases query with
  | some q =>
    cases fragment with
    | some f =>
      exact ⟨_, by simp [chars, beforeRoute, Route.chars],
        hrest ('?' :: (q ++ '#' :: f)) fun c hc => by cases hc; rfl⟩
    | none =>
      exact ⟨_, by simp [chars, beforeRoute, Route.chars],
        hrest ('?' :: q) fun c hc => by cases hc; rfl⟩
  | none =>
    cases fragment with
    | some f =>
      exact ⟨_, by simp [chars, beforeRoute, Route.chars],
        hrest ('#' :: f) fun c hc => by cases hc; rfl⟩
    | none =>
      exact ⟨_, by simp [chars, beforeRoute, Route.chars], hrest [] fun c hc => by cases hc⟩

/-- No slash of an authority follows the two that stand before it. -/
theorem takeWhile_eitherSlash_chars [Names] {scheme : List Char} {a : Authority}
    (h : a.Settled scheme) (rest : List Char) :
    ('/' :: '/' :: (a.chars ++ rest)).takeWhile eitherSlash = ['/', '/'] := by
  have hslash : eitherSlash '/' = true := rfl
  have hfirst : (a.chars ++ rest).takeWhile eitherSlash = [] := by
    cases hchars : a.chars with
    | nil => exact absurd hchars h.chars_ne_nil
    | cons c t =>
      have hc := (h.not_ends_of_mem_chars c (hchars ▸ List.mem_cons_self)).2
      refine List.takeWhile_cons_of_neg fun heither => ?_
      simp only [eitherSlash, Bool.or_eq_true, beq_iff_eq] at heither
      rcases heither with rfl | rfl <;> cases hc
  rw [List.takeWhile_cons_of_pos hslash, List.takeWhile_cons_of_pos hslash, hfirst]

/-- No blank stands in a special scheme and an authority. -/
theorem visible_of_settled [Names] {scheme : List Char} {a : Authority}
    (hspecial : kindOf scheme = .special) (h : a.Settled scheme) :
    ∀ c ∈ scheme ++ ':' :: '/' :: '/' :: a.chars, 0x20 < c.toNat := by
  intro c hc
  simp only [List.mem_append, List.mem_cons] at hc
  rcases hc with hc | rfl | rfl | rfl | hc
  · have hletter := (letters_of_special hspecial).2.1 c hc
    simp only [Chars.isLetter, Bool.or_eq_true, Bool.and_eq_true, decide_eq_true_eq] at hletter
    rcases hletter with ⟨hle, -⟩ | ⟨hle, -⟩ <;> exact Nat.lt_of_lt_of_le (by decide) hle
  · decide
  · decide
  · decide
  · exact (h.not_ends_of_mem_chars c hc).1

/-- A special scheme, two slashes and an authority are read as such. -/
theorem parse_eq_readAuthority [Names] {scheme rest : List Char} {a : Authority} {text : String}
    (hspecial : kindOf scheme = .special) (h : a.Settled scheme)
    (htext : cleaned text.toList = scheme ++ ':' :: '/' :: '/' :: (a.chars ++ rest)) :
    parse text = readAuthority scheme (a.chars ++ rest) := by
  unfold parse readWith
  simp only [htext, splitScheme?_special hspecial]
  unfold readAfterScheme
  rw [hspecial]
  simp only [takeWhile_eitherSlash_chars h rest]
  rfl

/-- A URL that was written is read with its scheme and its authority, if it is `Settled`. -/
theorem parse_chars [Names] {u : Url} (h : u.Settled) :
    ∃ v, parse u.text = .ok v ∧ v.scheme = u.scheme ∧ v.authority = u.authority := by
  obtain ⟨a, ha, hsettled⟩ := h.authority
  obtain ⟨l, hl⟩ := h.route
  obtain ⟨rest, hchars, hrest⟩ := exists_chars_eq ha hl
  have hvisible := visible_of_settled h.special hsettled
  obtain ⟨rest', hcleaned, hrest'⟩ := cleaned_append (by simp) hvisible hrest
  have hread : cleaned u.text.toList = u.scheme ++ ':' :: ('/' :: '/' :: (a.chars ++ rest')) := by
    rw [text, String.toList_ofList, hchars]
    simpa using hcleaned
  obtain ⟨v, hv, hscheme, hauthority⟩ := hsettled.readAuthority_chars h.special hrest'
  exact ⟨v, (parse_eq_readAuthority h.special hsettled hread).trans hv, hscheme,
    hauthority.trans ha.symm⟩

theorem route_withRest (u : Url) (rest : List Char) : (withRest u rest).route = u.route := by
  unfold withRest
  split <;> (split <;> rfl)

theorem scheme_fileUrl (host : Host) (path : PathDraft) (rest : List Char) :
    (fileUrl host path rest).scheme = fileScheme :=
  scheme_withRest _ _

/-- A URL with the scheme of files stays one, if there is no base. -/
theorem readFile_scheme [Names] {s : List Char} {u : Url} (h : readFile none s = .ok u) :
    u.scheme = fileScheme := by
  have hhost : ∀ {s : List Char}, readFileHost s = .ok u → u.scheme = fileScheme := by
    intro s hs
    unfold readFileHost at hs
    simp only at hs
    split at hs
    · rw [← Except.ok.inj hs, scheme_fileUrl]
    · obtain ⟨host, -, hs⟩ := bind_eq_ok_iff.1 hs
      split at hs <;> rw [← Except.ok.inj hs, scheme_fileUrl]
  have hroot : ∀ r : List Char, (readFile.fromRoot none r).scheme = fileScheme := fun r =>
    scheme_fileUrl _ _ _
  have hbeside : ∀ s : List Char, readFile.beside none s = .ok u → u.scheme = fileScheme := by
    intro s hs
    unfold readFile.beside at hs
    simp only at hs
    rw [← Except.ok.inj hs, scheme_fileUrl]
  unfold readFile at h
  split at h
  · split at h
    · split at h
      · split at h
        · exact hhost h
        · rw [← Except.ok.inj h, hroot]
      · rw [← Except.ok.inj h, hroot]
    · exact hbeside _ h
  · exact hbeside _ h

/-- The scheme of a URL with an authority is the one before it. -/
theorem readAuthority_scheme [Names] {scheme s : List Char} {u : Url}
    (h : readAuthority scheme s = .ok u) : u.scheme = scheme := by
  unfold readAuthority at h
  obtain ⟨⟨user, password, r₁⟩, -, h⟩ := bind_eq_ok_iff.1 h
  obtain ⟨host, -, h⟩ := bind_eq_ok_iff.1 h
  obtain ⟨⟨port, r₂⟩, -, h⟩ := bind_eq_ok_iff.1 h
  simp only at h
  split at h
  · cases h
  · rw [← Except.ok.inj h, scheme_withRest]

theorem readAuthority_isSettled [Names] [LawfulNames] {scheme s : List Char} {u : Url}
    (hscheme : kindOf scheme = .special) (h : readAuthority scheme s = .ok u) : u.Settled := by
  obtain ⟨a, ha, hsettled, hu⟩ := readAuthority_settled hscheme h
  refine ⟨hu ▸ hscheme, ⟨a, ha, hu ▸ hsettled⟩, ?_⟩
  obtain ⟨_, _, _, _, _, _, _, _, _, _, rfl⟩ := (readAuthority_eq_ok_iff hscheme).1 h
  exact ⟨_, route_withRest _ _⟩

/-- A URL that was read is written as it is read, if its scheme is special: it is `Settled`. -/
theorem parse_settled [Names] [LawfulNames] {text : String} {u : Url} (h : parse text = .ok u)
    (hscheme : kindOf u.scheme = .special) : u.Settled := by
  unfold parse readWith at h
  simp only at h
  split at h
  next scheme r hsplit =>
    unfold readAfterScheme at h
    split at h
    next hfile =>
      rw [Option.filter_none] at h
      rw [readFile_scheme h] at hscheme
      exact absurd hscheme (by decide)
    next hspecial => exact readAuthority_isSettled hspecial h
    next hplain =>
      split at h
      · rw [readAuthority_scheme h, hplain] at hscheme
        cases hscheme
      · rw [← Except.ok.inj h, scheme_withRest] at hscheme
        rw [hplain] at hscheme
        cases hscheme
      · rw [← Except.ok.inj h, scheme_withRest] at hscheme
        rw [hplain] at hscheme
        cases hscheme
  next => cases h

/-! ## Joining -/

/-- The text takes a new authority when it is joined to a URL with the scheme: `splitScheme?`
finds another scheme in it, or it begins with two slashes, which may stand behind that scheme. -/
def leavesBase (scheme s : List Char) : Bool :=
  match splitScheme? s with
  | some (other, r) => other != scheme || 2 ≤ (r.takeWhile eitherSlash).length
  | none => 2 ≤ (s.takeWhile eitherSlash).length

/-- The URL keeps scheme and authority of the base, `Host` and port among it. -/
structure OnBase (base u : Url) : Prop where
  scheme : u.scheme = base.scheme
  authority : u.authority = base.authority
  route : ∃ l, u.route = .segments l

theorem OnBase.withRest {base u : Url} (h : OnBase base u) (rest : List Char) :
    OnBase base (Url.withRest u rest) :=
  ⟨(scheme_withRest u rest).trans h.scheme, (authority_withRest u rest).trans h.authority,
    (route_withRest u rest).symm ▸ h.route⟩

theorem OnBase.onRoute (base : Url) (path : PathDraft) (rest : List Char) :
    OnBase base (base.onRoute path rest) := by
  have hroute : OnBase base { base with route := .segments path.segments } :=
    ⟨rfl, rfl, path.segments, rfl⟩
  exact hroute.withRest rest

/-- A text that begins with fewer than two slashes stands for a part of the base: `readBeside`
stays `OnBase`. -/
theorem readBeside_stays [Names] {base u : Url} {s : List Char}
    (hbase : ∃ l, base.route = .segments l) (hs : (s.takeWhile eitherSlash).length < 2)
    (h : readBeside base s = .ok u) : OnBase base u := by
  have hself : OnBase base base := ⟨rfl, rfl, hbase⟩
  unfold readBeside at h
  simp only at h
  split at h
  · exact Except.ok.inj h ▸ ⟨rfl, rfl, hbase⟩
  · exact Except.ok.inj h ▸ hself.withRest _
  · exact Except.ok.inj h ▸ ⟨rfl, rfl, hbase⟩
  · split at h
    next hc =>
      split at h
      · split at h
        next hd =>
          rw [List.takeWhile_cons_of_pos hc, List.takeWhile_cons_of_pos hd] at hs
          simp only [List.length_cons] at hs
          omega
        · exact Except.ok.inj h ▸ .onRoute ..
      · exact Except.ok.inj h ▸ .onRoute ..
    next hc => exact Except.ok.inj h ▸ .onRoute ..

theorem Settled.not_file [Names] {base : Url} (h : base.Settled) : base.scheme ≠ fileScheme := by
  intro heq
  have hspecial := h.special
  rw [heq] at hspecial
  exact absurd hspecial (by decide)

/-- A text with a scheme is read after it (`readAfterScheme`), one without it is read beside the
base (`readBeside`). -/
theorem join_eq [Names] {base : Url} (h : base.Settled) (text : String) :
    base.join text = match splitScheme? (cleaned text.toList) with
      | some (scheme, r) => readAfterScheme (some base) scheme r
      | none => readBeside base (cleaned text.toList) := by
  obtain ⟨l, hl⟩ := h.route
  unfold join readWith
  cases hs : splitScheme? (cleaned text.toList) with
  | some found => simp only [hs]
  | none => simp only [hs, hl, h.not_file, if_false]

/-- **A text that takes no new authority leaves scheme and authority of the base**: unless it
`leavesBase`, what it is joined to stays `OnBase`. -/
theorem join_stays [Names] {base u : Url} {text : String} (h : base.Settled)
    (hstays : leavesBase base.scheme (cleaned text.toList) = false)
    (hjoin : base.join text = .ok u) : OnBase base u := by
  rw [join_eq h] at hjoin
  unfold leavesBase at hstays
  split at hjoin
  next scheme r hsplit =>
    rw [hsplit] at hstays
    simp only [Bool.or_eq_false_iff, bne_eq_false_iff_eq, decide_eq_false_iff_not, Nat.not_le]
      at hstays
    obtain ⟨rfl, hslashes⟩ := hstays
    unfold readAfterScheme at hjoin
    rw [h.special] at hjoin
    simp only [hslashes, and_self, if_true] at hjoin
    exact readBeside_stays h.route hslashes hjoin
  next hsplit =>
    rw [hsplit] at hstays
    simp only [decide_eq_false_iff_not, Nat.not_le] at hstays
    exact readBeside_stays h.route hstays hjoin

/-- A text that begins with two slashes stands for the same beside every base of one scheme. -/
theorem readBeside_leaves [Names] {base other : Url} {s : List Char}
    (hscheme : other.scheme = base.scheme) (hs : 2 ≤ (s.takeWhile eitherSlash).length) :
    readBeside other s = readBeside base s := by
  match s, hs with
  | [], hs => simp at hs
  | [c], hs =>
    have hlength := (List.takeWhile_prefix (p := eitherSlash) (l := [c])).length_le
    simp only [List.length_singleton] at hlength
    omega
  | c :: d :: r, hs =>
    have hc : eitherSlash c = true := by
      by_contra hc
      rw [List.takeWhile_cons_of_neg hc] at hs
      simp at hs
    have hd : eitherSlash d = true := by
      by_contra hd
      rw [List.takeWhile_cons_of_pos hc, List.takeWhile_cons_of_neg hd] at hs
      simp at hs
    have hread : ∀ u : Url, readBeside u (c :: d :: r) = readAuthority u.scheme
        (if c = '/' ∧ d = '/' then r else (c :: d :: r).dropWhile eitherSlash) := by
      intro u
      unfold readBeside
      simp only
      split
      next heq => cases heq
      next heq =>
        obtain ⟨rfl, -⟩ := List.cons.inj heq
        cases hc
      next heq =>
        obtain ⟨rfl, -⟩ := List.cons.inj heq
        cases hc
      next heq =>
        obtain ⟨rfl, rfl⟩ := List.cons.inj heq
        rw [if_pos hc]
        simp only [hd, if_true]
    rw [hread, hread, hscheme]

/-- So does a text behind another scheme, and one behind their own that begins with two slashes. -/
theorem readAfterScheme_leaves [Names] {base other : Url} (h : base.Settled) (ho : other.Settled)
    (hscheme : other.scheme = base.scheme) {scheme r : List Char}
    (hleaves : scheme ≠ base.scheme ∨ 2 ≤ (r.takeWhile eitherSlash).length) :
    readAfterScheme (some other) scheme r = readAfterScheme (some base) scheme r := by
  unfold readAfterScheme
  cases hkind : kindOf scheme with
  | file =>
    have hnone : ∀ u : Url, u.scheme ≠ fileScheme →
        (some u).filter (fun b => b.scheme = fileScheme) = none := fun u hu => by
      simp [Option.filter, hu]
    simp only [hnone base h.not_file, hnone other ho.not_file]
  | special =>
    have hnot : ¬((r.takeWhile eitherSlash).length < 2 ∧ base.scheme = scheme) := by
      rintro ⟨hfew, heq⟩
      rcases hleaves with hne | hmany
      · exact hne heq.symm
      · omega
    simp only [hscheme, hnot, if_false]
  | plain => rfl

/-- **A text that takes a new authority** (`leavesBase`) **takes nothing of the base but its
scheme.** -/
theorem join_leaves [Names] {base other : Url} {text : String} (h : base.Settled)
    (ho : other.Settled) (hscheme : other.scheme = base.scheme)
    (hleaves : leavesBase base.scheme (cleaned text.toList) = true) :
    other.join text = base.join text := by
  rw [join_eq h, join_eq ho]
  unfold leavesBase at hleaves
  cases hsplit : splitScheme? (cleaned text.toList) with
  | some found =>
    obtain ⟨scheme, r⟩ := found
    rw [hsplit] at hleaves
    simp only [Bool.or_eq_true, bne_iff_ne, decide_eq_true_eq] at hleaves
    exact readAfterScheme_leaves h ho hscheme hleaves
  | none =>
    rw [hsplit] at hleaves
    simp only [decide_eq_true_eq] at hleaves
    exact readBeside_leaves hscheme hleaves

theorem asDirectory_settled [Names] {u : Url} (h : u.Settled) :
    u.asDirectory.Settled ∧ u.asDirectory.scheme = u.scheme ∧
      u.asDirectory.authority = u.authority := by
  obtain ⟨l, hl⟩ := h.route
  unfold asDirectory
  rw [hl]
  simp only
  split
  · exact ⟨h, rfl, rfl⟩
  · exact ⟨⟨h.special, h.authority, _, rfl⟩, rfl, rfl⟩

end RestCase.Url

namespace RestCase.Settings

open Url

/-- What of an endpoint is joined to the base, as the reader of URLs sees it: without its slashes
in front (`withoutSlashes`) and `cleaned`. -/
def joinedPart (written : String) : List Char :=
  cleaned (withoutSlashes (Text.trim written)).toList

/-- **Where the URL of an endpoint stays on the server of the base** (`OnBase`): the part that is
joined (`joinedPart`) must not begin with two slashes of either kind or with a scheme, the base's
own scheme and fewer than two slashes apart (`leavesBase`).  Otherwise the base counts for nothing
but its scheme. -/
theorem resolve_on_base [Url.Names] [Url.LawfulNames] {settings : Settings}
    {base written url : String} {b : Url}
    (hbase : settings.baseUrl = some base) (hparse : Url.parse base = .ok b)
    (hscheme : b.scheme = "http".toList ∨ b.scheme = "https".toList)
    (hrelative : Text.contains "://" written = false) (h : settings.resolve written = .ok url) :
    (leavesBase b.scheme (joinedPart written) = false →
      ∃ u, Url.parse url = .ok u ∧ u.scheme = b.scheme ∧ u.authority = b.authority) ∧
    (leavesBase b.scheme (joinedPart written) = true → ∀ other o, Url.parse other = .ok o →
      o.scheme = b.scheme → (settings.withBase other).resolve written = .ok url) := by
  have hspecial : kindOf b.scheme = .special := by
    rcases hscheme with hscheme | hscheme <;> rw [hscheme] <;> decide
  have htrimmed : Text.contains "://" (Text.trim written) = false := by
    rw [Bool.eq_false_iff] at hrelative ⊢
    exact fun hcontains => hrelative (Text.contains_of_trim hcontains)
  have hb := parse_settled hparse hspecial
  obtain ⟨hdirectory, hdscheme, hdauthority⟩ := asDirectory_settled hb
  unfold resolve at h
  simp only [htrimmed, hbase, hparse, Bool.false_eq_true, if_false] at h
  split at h
  · cases h
  next hempty =>
  split at h
  next u hjoin =>
    obtain rfl := Except.ok.inj h
    constructor
    · intro hstays
      obtain ⟨hscheme', hauthority', hroute'⟩ := join_stays hdirectory (hdscheme ▸ hstays) hjoin
      have hsettled : u.Settled := by
        refine ⟨hscheme' ▸ hdirectory.special, ?_, hroute'⟩
        rw [hscheme', hauthority']
        exact hdirectory.authority
      obtain ⟨v, hv, hvscheme, hvauthority⟩ := parse_chars hsettled
      exact ⟨v, hv, hvscheme.trans (hscheme'.trans hdscheme),
        hvauthority.trans (hauthority'.trans hdauthority)⟩
    · intro hleaves other o hother ho
      obtain ⟨hodirectory, hodscheme, -⟩ :=
        asDirectory_settled (parse_settled hother (ho ▸ hspecial))
      have hsame := join_leaves hdirectory hodirectory
        (hodscheme.trans (ho.trans hdscheme.symm)) (hdscheme ▸ hleaves)
      unfold resolve
      simp only [htrimmed, withBase, hother, Bool.false_eq_true, if_false, if_neg hempty]
      rw [hsame, hjoin]
  next => cases h

theorem eq_ok_of_toOption {ε α : Type} {x : Except ε α} {a : α} (h : x.toOption = some a) :
    x = .ok a := by
  cases x with
  | error e => cases h
  | ok b => exact congrArg _ (Option.some.inj h)

/-- A base with an address as its host. -/
def loopback : Url :=
  ⟨"http".toList, some ⟨[], [], .longAddress [0, 0, 0, 0, 0, 0, 0, 1], some 8080⟩,
    .segments ["v1".toList], none, none⟩

theorem parse_loopback : Url.parse "http://[::1]:8080/v1" = .ok loopback :=
  eq_ok_of_toOption (by decide +kernel)

/-- The settings of a run on that base. -/
def onLoopback : Settings := standard.withBase "http://[::1]:8080/v1"

/-- An endpoint below the base, and one that has the same URL on every base. -/
theorem resolve_on_base_loopback :
    (∃ u, Url.parse "http://[::1]:8080/v1/users/1" = .ok u ∧ u.scheme = "http".toList ∧
      u.authority = loopback.authority) ∧
    (onLoopback.withBase "http://[::3]").resolve "/\\/[::2]/x" = .ok "http://[::2]/x" := by
  have hbelow : onLoopback.resolve "/users/1" = .ok "http://[::1]:8080/v1/users/1" :=
    eq_ok_of_toOption (by decide +kernel)
  have hoff : onLoopback.resolve "/\\/[::2]/x" = .ok "http://[::2]/x" :=
    eq_ok_of_toOption (by decide +kernel)
  have hother : Url.parse "http://[::3]" = .ok ⟨"http".toList,
      some ⟨[], [], .longAddress [0, 0, 0, 0, 0, 0, 0, 3], none⟩, .segments [[]], none, none⟩ :=
    eq_ok_of_toOption (by decide +kernel)
  exact ⟨(resolve_on_base rfl parse_loopback (.inl rfl) (by decide +kernel) hbelow).1
      (by decide +kernel),
    (resolve_on_base rfl parse_loopback (.inl rfl) (by decide +kernel) hoff).2
      (by decide +kernel) _ _ hother rfl⟩

/-- **Two endpoints that lead elsewhere**, though they begin with a slash and have no `://` in them:
one to another host, one to a URL with another scheme. -/
theorem exists_endpoints_off_base :
    onLoopback.baseUrl = some "http://[::1]:8080/v1" ∧
    Url.parse "http://[::1]:8080/v1" = .ok loopback ∧ loopback.scheme = "http".toList ∧
    (∃ u, Text.contains "://" "/\\/[::2]/x" = false ∧
      onLoopback.resolve "/\\/[::2]/x" = .ok "http://[::2]/x" ∧
      Url.parse "http://[::2]/x" = .ok u ∧ u.host ≠ loopback.host) ∧
    (∃ u, Text.contains "://" "/users:search" = false ∧
      onLoopback.resolve "/users:search" = .ok "users:search" ∧
      Url.parse "users:search" = .ok u ∧ u.scheme ≠ loopback.scheme) := by
  have hhost : Url.parse "http://[::2]/x" = .ok ⟨"http".toList,
      some ⟨[], [], .longAddress [0, 0, 0, 0, 0, 0, 0, 2], none⟩, .segments ["x".toList], none,
      none⟩ :=
    eq_ok_of_toOption (by decide +kernel)
  have hscheme : Url.parse "users:search"
      = .ok ⟨"users".toList, none, .piece "search".toList, none, none⟩ :=
    eq_ok_of_toOption (by decide +kernel)
  exact ⟨rfl, parse_loopback, rfl,
    ⟨_, by decide +kernel, eq_ok_of_toOption (by decide +kernel), hhost, by decide⟩,
    ⟨_, by decide +kernel, eq_ok_of_toOption (by decide +kernel), hscheme, by decide⟩⟩

end RestCase.Settings
