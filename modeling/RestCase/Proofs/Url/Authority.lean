/-
# RestCase.Proofs.Url.Authority — authorities are read as they are written

The authority of a URL with a special scheme is what was read of a text, written again: its user and
password are encoded, its host is a name in ASCII or a numeric address, and its port is not the one
of the scheme (`readAuthority_settled`).  None of these can hold a character that delimits the parts
of an authority, apart from the colons of a long address, which stand between brackets.  So a reader
comes to the same parts again, whatever path, query or fragment stands behind them
(`specialHost_settled`, `readAuthority_chars`).

Of the mapping of names only `LawfulNames` is used.
-/
import RestCase.Proofs.Chars.Search
import RestCase.Proofs.Url.Address
import RestCase.Url.Reader

namespace RestCase.Url

/-! ## Characters -/

/-- A character that neither ends an authority nor divides it. -/
structure IsInner (c : Char) : Prop where
  visible : 0x20 < c.toNat
  not_slash : c ≠ '/'
  not_backslash : c ≠ '\\'
  not_question : c ≠ '?'
  not_hash : c ≠ '#'
  not_at : c ≠ '@'

instance (c : Char) : Decidable (IsInner c) :=
  decidable_of_iff (0x20 < c.toNat ∧ c ≠ '/' ∧ c ≠ '\\' ∧ c ≠ '?' ∧ c ≠ '#' ∧ c ≠ '@')
    ⟨fun ⟨hvisible, hslash, hback, hquestion, hhash, hat⟩ =>
      ⟨hvisible, hslash, hback, hquestion, hhash, hat⟩,
    fun h => ⟨h.visible, h.not_slash, h.not_backslash, h.not_question, h.not_hash, h.not_at⟩⟩

theorem IsInner.not_ends {c : Char} (h : IsInner c) : endsAuthority .special c = false := by
  simp [endsAuthority, isSlash, endsRoute, h.not_slash, h.not_backslash, h.not_question, h.not_hash]

theorem IsSettledChar.inner {c : Char} (h : IsSettledChar c) :
    IsInner c ∧ c ≠ ':' ∧ c ≠ '[' ∧ c ≠ '%' := by
  have hallowed := h.allowed
  simp only [forbiddenInDomain, Bool.or_eq_false_iff, decide_eq_false_iff_not, Nat.not_le,
    List.contains_eq_mem, List.mem_cons, List.not_mem_nil, or_false, not_or] at hallowed
  obtain ⟨⟨hvisible, -⟩, hpercent, hhash, hslash, hcolon, -, -, hquestion, hat, hopen, hback, -⟩ :=
    hallowed
  exact ⟨⟨hvisible, hslash, hback, hquestion, hhash, hat⟩, hcolon, hopen, hpercent⟩

theorem inner_of_isHexDigit {c : Char} (h : Chars.isHexDigit c = true) :
    IsInner c ∧ c ≠ ':' ∧ c ≠ '[' ∧ c ≠ ']' := by
  have hascii : c.toNat < 0x80 := by
    simp only [Chars.isHexDigit, Chars.isDigit, Bool.or_eq_true, Bool.and_eq_true,
      decide_eq_true_eq, Char.le_def, UInt32.le_iff_toNat_le] at h
    rcases h with (h | h) | h <;> exact Nat.lt_of_le_of_lt h.2 (by decide)
  have hall : ∀ n < 0x80, Chars.isHexDigit (Char.ofNat n) = true → IsInner (Char.ofNat n) ∧
      Char.ofNat n ≠ ':' ∧ Char.ofNat n ≠ '[' ∧ Char.ofNat n ≠ ']' := by
    decide
  have hc := hall c.toNat hascii
  rw [Char.ofNat_toNat] at hc
  exact hc h

/-- What follows an authority: nothing, or a character that ends it. -/
def FollowsAuthority (rest : List Char) : Prop :=
  ∀ c ∈ rest.head?, endsAuthority .special c = true

theorem FollowsAuthority.of_prefix {core rest : List Char} (hrest : FollowsAuthority rest)
    (h : core <+: rest) : FollowsAuthority core := by
  obtain ⟨tail, rfl⟩ := h
  cases core with
  | nil => exact fun c hc => by cases hc
  | cons d r => exact fun c hc => hrest c hc

theorem FollowsAuthority.filter {p : Char → Bool} {rest : List Char}
    (hp : ∀ c, endsAuthority .special c = true → p c = true) (hrest : FollowsAuthority rest) :
    FollowsAuthority (rest.filter p) := by
  cases rest with
  | nil => exact hrest
  | cons d r =>
    rw [List.filter_cons_of_pos (hp d (hrest d rfl))]
    exact fun c hc => hrest c hc

/-! ## Hosts -/

/-- A host whose text is read as the host again. -/
structure Host.Settled [Names] (host : Host) : Prop where
  same : specialHost host.chars = .ok host
  not_nil : host.chars ≠ []
  inner : ∀ c ∈ host.chars, IsInner c
  /-- The reader of an authority takes the text of the host and nothing else. -/
  taken : ∀ rest, (∀ c ∈ rest.head?, c = ':' ∨ endsAuthority .special c = true) →
    takeHost .special false (host.chars ++ rest) = (host.chars, rest)

theorem takeHost_nil {kind : SchemeKind} {rest : List Char}
    (hrest : ∀ c ∈ rest.head?, c = ':' ∨ endsAuthority kind c = true) :
    takeHost kind false rest = ([], rest) := by
  cases rest with
  | nil => rfl
  | cons c r =>
    rw [takeHost, if_pos]
    simpa using hrest c rfl

/-- A host without brackets ends at the first colon. -/
theorem takeHost_append {s rest : List Char}
    (hs : ∀ c ∈ s, IsInner c ∧ c ≠ ':' ∧ c ≠ '[')
    (hrest : ∀ c ∈ rest.head?, c = ':' ∨ endsAuthority .special c = true) :
    takeHost .special false (s ++ rest) = (s, rest) := by
  induction s with
  | nil => exact takeHost_nil hrest
  | cons c s ih =>
    obtain ⟨hinner, hcolon, hopen⟩ := hs c List.mem_cons_self
    have hgo := ih fun d hd => hs d (List.mem_cons_of_mem _ hd)
    rw [List.cons_append, takeHost, if_neg (by simp [hcolon, hinner.not_ends]), if_neg hopen]
    simp [hgo]

/-- Between brackets a colon does not end a host. -/
theorem takeHost_brackets {s rest : List Char} (hs : ∀ c ∈ s, IsInner c ∧ c ≠ ']')
    (hrest : ∀ c ∈ rest.head?, c = ':' ∨ endsAuthority .special c = true) :
    takeHost .special false ('[' :: (s ++ ']' :: rest)) = ('[' :: (s ++ [']']), rest) := by
  have hinside : takeHost .special true (s ++ ']' :: rest) = (s ++ [']'], rest) := by
    induction s with
    | nil =>
      have hclose : endsAuthority .special ']' = false := rfl
      rw [List.nil_append, takeHost, if_neg (by simp [hclose])]
      simp [takeHost_nil hrest]
    | cons c s ih =>
      obtain ⟨hinner, hclose⟩ := hs c List.mem_cons_self
      have hgo := ih fun d hd => hs d (List.mem_cons_of_mem _ hd)
      rw [List.cons_append, takeHost, if_neg (by simp [hinner.not_ends])]
      by_cases hopen : c = '[' <;> simp [hopen, hclose, hgo]
  have hopen : endsAuthority .special '[' = false := rfl
  rw [takeHost, if_neg (by simp [hopen])]
  simp [hinside]

theorem mem_pieceChars {pieces : List Nat} {c : Char} (h : c ∈ pieceChars pieces) :
    c = ':' ∨ Chars.isHexDigit c = true := by
  refine (mem_intercalate h).imp_right fun ⟨piece, hpiece, hc⟩ => ?_
  obtain ⟨p, -, rfl⟩ := List.mem_map.1 hpiece
  exact Chars.isHexDigit_of_mem_hexDigits hc

theorem mem_longAddressChars {pieces : List Nat} {c : Char} (h : c ∈ longAddressChars pieces) :
    c = ':' ∨ Chars.isHexDigit c = true := by
  unfold longAddressChars at h
  simp only at h
  split at h
  · exact mem_pieceChars h
  · rcases List.mem_append.1 h with h | h
    · rcases List.mem_append.1 h with h | h
      · exact mem_pieceChars h
      · exact .inl (by simpa using h)
    · exact mem_pieceChars h

theorem settled_longAddress [Names] {pieces : List Nat} (hlength : pieces.length = 8)
    (hpieces : ∀ p ∈ pieces, p < 0x10000) : (Host.longAddress pieces).Settled := by
  have hinner : ∀ c ∈ longAddressChars pieces, IsInner c ∧ c ≠ ']' := by
    intro c hc
    rcases mem_longAddressChars hc with rfl | hc
    · exact ⟨by decide, by decide⟩
    · exact ⟨(inner_of_isHexDigit hc).1, (inner_of_isHexDigit hc).2.2.2⟩
  have hchars : (Host.longAddress pieces).chars = '[' :: (longAddressChars pieces ++ [']']) := rfl
  refine ⟨?_, List.cons_ne_nil _ _, ?_, fun rest hrest => ?_⟩
  · have hlast : ('[' :: (longAddressChars pieces ++ [']'])).getLast? = some ']' := by
      rw [← List.cons_append, List.getLast?_concat]
    have hdrop : (('[' :: (longAddressChars pieces ++ [']'])).drop 1).dropLast
        = longAddressChars pieces := List.dropLast_concat
    rw [hchars, specialHost, if_pos (by rfl), bracketed, if_neg (by simp [hlast]), hdrop,
      readLongAddress?_longAddressChars hlength hpieces]
  · intro c hc
    rw [hchars, List.mem_cons, List.mem_append, List.mem_singleton] at hc
    rcases hc with rfl | hc | rfl
    · decide
    · exact (hinner c hc).1
    · decide
  · have := takeHost_brackets hinner hrest
    rwa [hchars, List.cons_append, List.append_assoc, List.singleton_append]

/-- A name in ASCII is a host of its own, or the text of an address. -/
theorem settled_of_toAscii? [Names] [LawfulNames] {host : Host} (hne : host.chars ≠ [])
    (hdomain : Names.toAscii? host.chars = some host.chars)
    (hhost : (if endsInNumber host.chars then
        match readShortAddress? host.chars with
        | some n => (.ok (.shortAddress n) : Except Fault Host)
        | none => .error .shortAddress
      else .ok (.name host.chars)) = .ok host) : host.Settled := by
  have hchars : ∀ c ∈ host.chars, IsSettledChar c := (LawfulNames.settled hdomain).2
  refine ⟨?_, hne, fun c hc => (hchars c hc).inner.1, fun rest hrest => ?_⟩
  · -- no bracket opens the text and nothing in it is encoded, so the branch of the names is taken
    have hopen : host.chars.head? ≠ some '[' := fun hhead =>
      (hchars '[' (List.mem_of_mem_head? hhead)).inner.2.2.1 rfl
    have hpercent : '%' ∉ host.chars := fun hmem => (hchars '%' hmem).inner.2.2.2 rfl
    rw [specialHost, if_neg (by simpa using hopen), decode?_of_not_mem hpercent, Option.bind_some,
      hdomain]
    generalize host.chars = s at hne hhost
    cases s with
    | nil => exact absurd rfl hne
    | cons c r => exact hhost
  · exact takeHost_append (fun c hc => ⟨(hchars c hc).inner.1, (hchars c hc).inner.2.1,
      (hchars c hc).inner.2.2.1⟩) hrest

theorem settled_shortAddress [Names] [LawfulNames] {n : Nat} (hn : n < 0x100000000) :
    (Host.shortAddress n).Settled := by
  have hnumber := endsInNumber_shortAddressChars n
  refine settled_of_toAscii? ?_ (toAscii?_shortAddressChars n) ?_
  · intro hnil
    rw [show shortAddressChars n = [] from hnil] at hnumber
    cases hnumber
  · show (if endsInNumber (shortAddressChars n) then _ else _) = _
    rw [if_pos hnumber]
    show (match readShortAddress? (shortAddressChars n) with
      | some n => (.ok (.shortAddress n) : Except Fault Host)
      | none => .error .shortAddress) = _
    rw [readShortAddress?_shortAddressChars hn]

/-- **A host that was read is read again from its own text**: what `specialHost` gives is
`Settled`, by the laws of the names (`LawfulNames`). -/
theorem specialHost_settled [Names] [LawfulNames] {s : List Char} {host : Host}
    (h : specialHost s = .ok host) : host.Settled := by
  unfold specialHost at h
  -- an address in brackets, or else a name, of which some are addresses
  split at h
  · unfold bracketed at h
    split at h
    · cases h
    · split at h
      next pieces hread =>
        obtain rfl := Except.ok.inj h
        obtain ⟨hlength, hpieces⟩ := readLongAddress?_fits hread
        exact settled_longAddress hlength hpieces
      next => cases h
  · split at h
    next => cases h
    next => cases h
    next name hempty hname =>
      obtain ⟨decoded, -, hdomain⟩ := Option.bind_eq_some_iff.1 hname
      have hsame := (LawfulNames.settled hdomain).1
      split at h
      next hnumber =>
        split at h
        next n hn =>
          obtain rfl := Except.ok.inj h
          obtain ⟨numbers, -, hnumbers⟩ := Option.bind_eq_some_iff.1 hn
          exact settled_shortAddress (shortAddress?_lt hnumbers)
        next => cases h
      next hnumber =>
        obtain rfl := Except.ok.inj h
        exact settled_of_toAscii? hempty hsame (if_neg hnumber)

/-! ## Credentials and ports -/

/-- A character of a user or a password as it is written. -/
structure IsCredential (c : Char) : Prop where
  inner : IsInner c
  not_colon : c ≠ ':'
  same : reservedInUserInfo c = false

theorem isCredential_of_mem_encode {s : List Char} {c : Char}
    (h : c ∈ encode reservedInUserInfo s) : IsCredential c := by
  have hsame : reservedInUserInfo c = false := by
    rcases mem_encode h with ⟨-, hc⟩ | rfl | ⟨d, hd, rfl⟩
    · exact hc
    · decide
    · exact (by decide : ∀ d < 16, reservedInUserInfo (upperHex d) = false) d hd
  have hparts := hsame
  simp only [reservedInUserInfo, reservedInPath, reservedInFragment, reservedAnywhere,
    Bool.or_eq_false_iff, decide_eq_false_iff_not, Nat.not_lt, List.contains_eq_mem, List.mem_cons,
    List.not_mem_nil, or_false, not_or] at hparts
  obtain ⟨⟨⟨⟨hlow, -⟩, hspace, -⟩, hhash, hquestion, -⟩, hslash, hcolon, -, -, hat, -, hback, -⟩ :=
    hparts
  have hvisible : 0x20 < c.toNat := by
    refine Nat.lt_of_le_of_ne hlow fun heq => hspace ?_
    exact Char.toNat_inj.1 heq.symm
  exact ⟨⟨hvisible, hslash, hback, hquestion, hhash, hat⟩, hcolon, hsame⟩

theorem encode_credential {s : List Char} (h : ∀ c ∈ s, IsCredential c) :
    encode reservedInUserInfo s = s :=
  encode_eq_self fun c hc => (h c hc).same

/-- A port as it is written. -/
def portChars : Option Nat → List Char
  | some n => ':' :: Chars.digits n
  | none => []

theorem readPort_digits {scheme rest : List Char} {n : Nat} (hn : n ≤ 65535)
    (hdefault : defaultPort? scheme ≠ some n) (hrest : FollowsAuthority rest) :
    readPort scheme (Chars.digits n ++ rest) = .ok (some n, rest) := by
  have hends : ∀ c ∈ rest.head?, Chars.isDigit c = false ∧
      (c == '\\' || c == '/' || endsRoute c) = true := by
    intro c hc
    have hc' := hrest c hc
    simp only [endsAuthority, isSlash, endsRoute, SchemeKind.isSpecial, Bool.or_eq_true,
      Bool.and_eq_true, beq_iff_eq] at hc'
    rcases hc' with (rfl | ⟨rfl, -⟩) | rfl | rfl <;> decide
  have htake := Chars.takeDigits_append (Chars.isDigit_of_mem_digits n) fun c hc => (hends c hc).1
  have hne : (Chars.digits n).isEmpty = false := by simpa using Chars.digits_ne_nil n
  unfold readPort
  rw [htake]
  cases rest with
  | nil => simp [Chars.ofDigits_digits, hne, Nat.not_lt.2 hn, hdefault]
  | cons c r => simp [Chars.ofDigits_digits, hne, Nat.not_lt.2 hn, hdefault, (hends c rfl).2]

theorem readPort_spec {scheme s rest : List Char} {port : Option Nat}
    (h : readPort scheme s = .ok (port, rest)) :
    ∀ n, port = some n → n ≤ 65535 ∧ defaultPort? scheme ≠ some n := by
  rintro n rfl
  unfold readPort at h
  simp only [Bool.or_eq_true, decide_eq_true_eq] at h
  split_ifs at h with hlarge hdefault
  · cases h
  · rw [not_or, Nat.not_lt] at hlarge
    rw [not_or, beq_iff_eq] at hdefault
    obtain rfl := Option.some.inj (Prod.mk.inj (Except.ok.inj h)).1
    exact ⟨hlarge.1, hdefault.2⟩

/-! ## Authorities -/

/-- An authority of a URL with a special scheme as reading gives it. -/
structure Authority.Settled [Names] (scheme : List Char) (a : Authority) : Prop where
  user : ∀ c ∈ a.user, IsCredential c
  password : ∀ c ∈ a.password, IsCredential c
  host : a.host.Settled
  port : ∀ n, a.port = some n → n ≤ 65535 ∧ defaultPort? scheme ≠ some n

@[simp] theorem authority_withRest (u : Url) (rest : List Char) :
    (withRest u rest).authority = u.authority := by
  unfold withRest
  split <;> (split <;> rfl)

@[simp] theorem scheme_withRest (u : Url) (rest : List Char) :
    (withRest u rest).scheme = u.scheme := by
  unfold withRest
  split <;> (split <;> rfl)

theorem splitUser_spec {kind : SchemeKind} {s user password rest : List Char}
    (h : splitUser kind s = .ok (user, password, rest)) :
    (∀ c ∈ user, IsCredential c) ∧ ∀ c ∈ password, IsCredential c := by
  unfold splitUser at h
  simp only at h
  split at h
  · rw [Except.ok.injEq, Prod.mk.injEq, Prod.mk.injEq] at h
    obtain ⟨rfl, rfl, -⟩ := h
    exact ⟨fun c hc => absurd hc List.not_mem_nil, fun c hc => absurd hc List.not_mem_nil⟩
  · split at h
    · cases h
    · rw [Except.ok.injEq, Prod.mk.injEq, Prod.mk.injEq] at h
      obtain ⟨rfl, rfl, -⟩ := h
      exact ⟨fun c hc => isCredential_of_mem_encode hc, fun c hc => isCredential_of_mem_encode hc⟩

theorem bind_eq_ok_iff {α β : Type} {x : Except Fault α} {f : α → Except Fault β} {b : β} :
    x.bind f = .ok b ↔ ∃ a, x = .ok a ∧ f a = .ok b := by
  cases x with
  | error e => simp [Except.bind]
  | ok a => simp [Except.bind]

/-- The parts of an authority, one after the other. -/
theorem readAuthority_eq_ok_iff [Names] {scheme s : List Char} {u : Url}
    (hscheme : kindOf scheme = .special) :
    readAuthority scheme s = .ok u ↔ ∃ user password r₁ host port r₂,
      splitUser .special s = .ok (user, password, r₁) ∧
      (takeHost .special false r₁).1 ≠ [] ∧
      specialHost (takeHost .special false r₁).1 = .ok host ∧
      readAfterHost scheme (takeHost .special false r₁).1 (takeHost .special false r₁).2
        = .ok (port, r₂) ∧
      u = withRest ⟨scheme, some ⟨user, password, host, port⟩,
        .segments (readPathStart .special r₂).1.segments, none, none⟩
        (readPathStart .special r₂).2 := by
  have hhost : ∀ (text : List Char) (host : Host), readHost .special text = .ok host ↔
      text ≠ [] ∧ specialHost text = .ok host := by
    intro text host
    cases text <;> simp [readHost, SchemeKind.isSpecial]
  unfold readAuthority
  rw [hscheme]
  constructor
  · intro h
    obtain ⟨⟨user, password, r₁⟩, hsplit, h⟩ := bind_eq_ok_iff.1 h
    obtain ⟨host, hread, h⟩ := bind_eq_ok_iff.1 h
    obtain ⟨⟨port, r₂⟩, hport, h⟩ := bind_eq_ok_iff.1 h
    obtain ⟨hne, hread⟩ := (hhost _ _).1 hread
    simp only [List.isEmpty_iff, hne, Bool.and_eq_true, false_and, if_false] at h
    exact ⟨user, password, r₁, host, port, r₂, hsplit, hne, hread, hport, (Except.ok.inj h).symm⟩
  · rintro ⟨user, password, r₁, host, port, r₂, hsplit, hne, hread, hport, rfl⟩
    refine bind_eq_ok_iff.2 ⟨_, hsplit, bind_eq_ok_iff.2 ⟨host, (hhost _ _).2 ⟨hne, hread⟩,
      bind_eq_ok_iff.2 ⟨_, hport, ?_⟩⟩⟩
    exact if_neg (by simp [hne])

/-- **What an authority that was read is made of**: it is `Authority.Settled`. -/
theorem readAuthority_settled [Names] [LawfulNames] {scheme s : List Char} {u : Url}
    (hscheme : kindOf scheme = .special) (h : readAuthority scheme s = .ok u) :
    ∃ a, u.authority = some a ∧ a.Settled scheme ∧ u.scheme = scheme := by
  obtain ⟨user, password, r₁, host, port, r₂, hsplit, -, hhost, hport, rfl⟩ :=
    (readAuthority_eq_ok_iff hscheme).1 h
  refine ⟨⟨user, password, host, port⟩, authority_withRest _ _, ?_, scheme_withRest _ _⟩
  obtain ⟨huser, hpassword⟩ := splitUser_spec hsplit
  refine ⟨huser, hpassword, specialHost_settled hhost, ?_⟩
  unfold readAfterHost at hport
  split at hport
  · split at hport
    · cases hport
    · exact readPort_spec hport
  · obtain ⟨rfl, -⟩ := Prod.mk.inj (Except.ok.inj hport)
    exact fun n hn => by cases hn

theorem IsCredential.ne_colon {s : List Char} (h : ∀ c ∈ s, IsCredential c) :
    ∀ c ∈ s, (c != ':') = true :=
  fun c hc => by simpa using (h c hc).not_colon

namespace Authority.Settled

theorem chars_eq (a : Authority) :
    a.chars = a.credentials ++ (a.host.chars ++ portChars a.port) := by
  unfold Authority.chars
  rw [List.append_assoc]
  cases a.port <;> rfl

variable [Names] {scheme : List Char} {a : Authority}

/-- The host and the port as they are written. -/
theorem inner_of_mem_hostPort (h : a.Settled scheme) :
    ∀ c ∈ a.host.chars ++ portChars a.port, IsInner c := by
  intro c hc
  rcases List.mem_append.1 hc with hc | hc
  · exact h.host.inner c hc
  · cases hport : a.port with
    | none =>
      rw [hport] at hc
      cases hc
    | some n =>
      rw [hport] at hc
      rcases List.mem_cons.1 hc with rfl | hc
      · decide
      · refine (inner_of_isHexDigit ?_).1
        simp [Chars.isHexDigit, Chars.isDigit_of_mem_digits n c hc]

/-- What stands before the `@`, if there is one. -/
theorem credentials_eq (h : a.Settled scheme) :
    (a.user = [] ∧ a.password = [] ∧ a.credentials = []) ∨
      ∃ info, a.credentials = info ++ ['@'] ∧ info ≠ [] ∧
        info.takeWhile (· != ':') = a.user ∧ info.drop (a.user.length + 1) = a.password ∧
        ∀ c ∈ info, IsInner c := by
  have hnone : ∀ s : List Char, (∀ c ∈ s, IsCredential c) → s.takeWhile (· != ':') = s :=
    fun s hs => List.takeWhile_eq_self_iff.2 (IsCredential.ne_colon hs)
  have hinner : ∀ s : List Char, (∀ c ∈ s, IsCredential c) → ∀ c ∈ s, IsInner c := fun s hs c hc =>
    (hs c hc).inner
  unfold Authority.credentials
  -- without a password no colon is written, and without a user as well no `@`
  by_cases hpassword : a.password = []
  · by_cases huser : a.user = []
    · exact .inl ⟨huser, hpassword, by simp [huser, hpassword]⟩
    · refine .inr ⟨a.user, by simp [huser, hpassword], huser, hnone _ h.user, ?_, hinner _ h.user⟩
      rw [List.drop_eq_nil_of_le (Nat.le_succ _), hpassword]
  · refine .inr ⟨a.user ++ ':' :: a.password, by simp [hpassword], by simp, ?_, ?_, ?_⟩
    · rw [List.takeWhile_append_of_pos (IsCredential.ne_colon h.user)]
      simp
    · rw [List.drop_append, List.drop_eq_nil_of_le (Nat.le_succ _), Nat.add_sub_cancel_left]
      rfl
    · intro c hc
      rcases List.mem_append.1 hc with hc | hc
      · exact (h.user c hc).inner
      · rcases List.mem_cons.1 hc with rfl | hc
        · decide
        · exact (h.password c hc).inner

/-- No character of an authority ends it or is blank. -/
theorem not_ends_of_mem_chars (h : a.Settled scheme) :
    ∀ c ∈ a.chars, 0x20 < c.toNat ∧ endsAuthority .special c = false := by
  intro c hc
  rw [chars_eq, List.mem_append] at hc
  rcases hc with hc | hc
  · rcases h.credentials_eq with ⟨-, -, hnone⟩ | ⟨info, hinfo, -, -, -, hinner⟩
    · rw [hnone] at hc
      cases hc
    · rw [hinfo, List.mem_append, List.mem_singleton] at hc
      rcases hc with hc | rfl
      · exact ⟨(hinner c hc).visible, (hinner c hc).not_ends⟩
      · decide
  · exact ⟨(h.inner_of_mem_hostPort c hc).visible, (h.inner_of_mem_hostPort c hc).not_ends⟩

theorem chars_ne_nil (h : a.Settled scheme) : a.chars ≠ [] := by
  rw [chars_eq]
  simp [h.host.not_nil]

theorem takeWhile_chars (h : a.Settled scheme) {rest : List Char} (hrest : FollowsAuthority rest) :
    (a.chars ++ rest).takeWhile (fun c => !endsAuthority .special c) = a.chars := by
  refine Chars.takeWhile_run (fun c hc => ?_) fun c hc => ?_
  · rw [(h.not_ends_of_mem_chars c hc).2]
    rfl
  · rw [hrest c hc]
    rfl

/-- The user and the password are read as they are written. -/
theorem splitUser_chars (h : a.Settled scheme) {rest : List Char} (hrest : FollowsAuthority rest) :
    splitUser .special (a.chars ++ rest)
      = .ok (a.user, a.password, a.host.chars ++ portChars a.port ++ rest) := by
  have hat : '@' ∉ a.host.chars ++ portChars a.port := fun hmem =>
    (h.inner_of_mem_hostPort '@' hmem).not_at rfl
  unfold splitUser
  rw [h.takeWhile_chars hrest]
  rcases h.credentials_eq with ⟨huser, hpassword, hnone⟩ | ⟨info, hinfo, hne, huser, hpassword, -⟩
  · rw [chars_eq, hnone, List.nil_append, huser, hpassword]
    exact if_pos (by simpa using hat)
  · have hsome : (info ++ ['@'] ++ (a.host.chars ++ portChars a.port)).contains '@' = true := by
      simp
    -- the last `@` is the one before the host
    have hafter : ((info ++ ['@'] ++ (a.host.chars ++ portChars a.port)).reverse.takeWhile
        (· != '@')).reverse = a.host.chars ++ portChars a.port := by
      rw [List.append_assoc, List.singleton_append]
      exact Chars.afterLast_append info hat
    have hbefore : (info ++ ['@'] ++ (a.host.chars ++ portChars a.port)).take
        ((info ++ ['@'] ++ (a.host.chars ++ portChars a.port)).length
          - (a.host.chars ++ portChars a.port).length - 1) = info := by
      rw [List.append_assoc info, List.singleton_append]
      exact Chars.take_append_mark info '@' _
    have hdrop : (info ++ ['@'] ++ (a.host.chars ++ portChars a.port) ++ rest).drop
        (info.length + 1) = a.host.chars ++ portChars a.port ++ rest := by
      have hlength : info.length + 1 = (info ++ ['@']).length := by
        rw [List.length_append, List.length_singleton]
      rw [hlength, List.append_assoc, List.drop_left]
    rw [chars_eq, hinfo]
    simp only [hsome, hafter, hbefore, hdrop, huser, hpassword, encode_credential h.user,
      encode_credential h.password]
    simp [hne]

/-- **An authority is read as it was written** (`Authority.chars`), and what stands behind it is
left. -/
theorem readAuthority_chars_eq (hscheme : kindOf scheme = .special) (h : a.Settled scheme)
    {rest : List Char} (hrest : FollowsAuthority rest) :
    readAuthority scheme (a.chars ++ rest) = .ok (withRest ⟨scheme, some a,
      .segments (readPathStart .special rest).1.segments, none, none⟩
      (readPathStart .special rest).2) := by
  have hfollows : ∀ c ∈ (portChars a.port ++ rest).head?,
      c = ':' ∨ endsAuthority .special c = true := by
    cases a.port with
    | none => exact fun c hc => .inr (hrest c hc)
    | some n => exact fun c hc => .inl (Option.some.inj hc).symm
  -- the host ends where its port or what stands behind the authority begins
  have htake := h.host.taken (portChars a.port ++ rest) hfollows
  have hport : readAfterHost scheme a.host.chars (portChars a.port ++ rest)
      = .ok (a.port, rest) := by
    have hne : a.host.chars.isEmpty = false := by simpa using h.host.not_nil
    cases hport : a.port with
    | none =>
      cases rest with
      | nil => rfl
      | cons c r =>
        have hcolon : c ≠ ':' := by
          rintro rfl
          cases hrest ':' rfl
        unfold readAfterHost
        split
        · next heq => exact absurd (List.cons.inj heq).1 hcolon
        · rfl
    | some n =>
      obtain ⟨hn, hdefault⟩ := h.port n hport
      show (if a.host.chars.isEmpty then _ else _) = _
      rw [hne]
      exact readPort_digits hn hdefault hrest
  refine (readAuthority_eq_ok_iff hscheme).2 ⟨a.user, a.password, _, a.host, a.port, rest,
    h.splitUser_chars hrest, ?_, ?_, ?_, rfl⟩
  · rw [List.append_assoc, htake]
    exact h.host.not_nil
  · rw [List.append_assoc, htake]
    exact h.host.same
  · rw [List.append_assoc, htake]
    exact hport

theorem readAuthority_chars (hscheme : kindOf scheme = .special) (h : a.Settled scheme)
    {rest : List Char} (hrest : FollowsAuthority rest) :
    ∃ u, readAuthority scheme (a.chars ++ rest) = .ok u ∧ u.scheme = scheme ∧
      u.authority = some a :=
  ⟨_, h.readAuthority_chars_eq hscheme hrest, scheme_withRest _ _, authority_withRest _ _⟩

end Authority.Settled

end RestCase.Url
