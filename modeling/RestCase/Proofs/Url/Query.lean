/-
# RestCase.Proofs.Url.Query — endpoints with a query

A question mark ends the path of an endpoint (`readPath_append_query`), so what follows it should
have no say in where the endpoint leads: the URL of the endpoint with a query is the URL of the
endpoint, and the query behind it.  The reader of URLs works that way (`join_query`).  But whether
an endpoint is a URL of its own is told by `://` anywhere in it, its query included, and an endpoint
with a URL in its query is then no URL at all (`Settings.exists_query_that_unmakes_endpoint`).

`Settings.resolve_query` says when a query is only put behind the URL of an endpoint.
-/
import RestCase.Proofs.Chars.Decimals
import RestCase.Proofs.Url.Origin

namespace RestCase.Url

/-! ## Characters -/

/-- A character of a segment of an endpoint. -/
def isSegmentChar (c : Char) : Bool :=
  Chars.isLetter c || Chars.isDigit c || c == '_' || c == '-'

/-- A character of a query that is written as it is. -/
def isQueryChar (c : Char) : Bool :=
  isSegmentChar c || ['.', '~', ':', '/', '?', '=', '&'].contains c

/-- Segments and the slashes between them. -/
def IsPathText (s : List Char) : Prop := ∀ c ∈ s, c = '/' ∨ isSegmentChar c = true

/-- A text that can be a query as it is. -/
def IsQueryText (s : List Char) : Prop := ∀ c ∈ s, isQueryChar c = true

instance : DecidablePred IsPathText := fun s =>
  List.decidableBAll (fun c => c = '/' ∨ isSegmentChar c = true) s

instance : DecidablePred IsQueryText := fun s =>
  List.decidableBAll (fun c => isQueryChar c = true) s

theorem ascii_of_isQueryChar {c : Char} (h : isQueryChar c = true) : c.toNat < 0x80 := by
  simp only [isQueryChar, isSegmentChar, Chars.isLetter, Chars.isDigit, Bool.or_eq_true,
    Bool.and_eq_true, decide_eq_true_eq, beq_iff_eq, List.contains_iff_mem, List.mem_cons,
    List.not_mem_nil, or_false] at h
  rcases h with ((((h | h) | h) | rfl) | rfl) | rfl | rfl | rfl | rfl | rfl | rfl | rfl
  · exact Nat.lt_of_le_of_lt h.2 (by decide)
  · exact Nat.lt_of_le_of_lt h.2 (by decide)
  · exact Nat.lt_of_le_of_lt h.2 (by decide)
  all_goals decide

/-- A character of a query is no blank, and it is written as it is. -/
theorem plain_of_isQueryChar {c : Char} (h : isQueryChar c = true) :
    0x20 < c.toNat ∧ Chars.isBlank c = false ∧ reservedInSpecialQuery c = false := by
  have hall : ∀ n < 0x80, isQueryChar (Char.ofNat n) = true →
      0x20 < n ∧ Chars.isBlank (Char.ofNat n) = false ∧
        reservedInSpecialQuery (Char.ofNat n) = false := by
    decide
  simpa using hall c.toNat (ascii_of_isQueryChar h) (by simpa using h)

namespace IsPathText

variable {s : List Char}

theorem isQueryText (h : IsPathText s) : IsQueryText s := fun c hc => by
  rcases h c hc with rfl | hc
  · decide
  · simp [isQueryChar, hc]

theorem append_query (h : IsPathText s) {query : List Char} (hquery : IsQueryText query) :
    IsQueryText (s ++ '?' :: query) := fun c hc => by
  rcases List.mem_append.1 hc with hc | hc
  · exact h.isQueryText c hc
  · rcases List.mem_cons.1 hc with rfl | hc
    · decide
    · exact hquery c hc

theorem not_mem (h : IsPathText s) {c : Char} (hslash : c ≠ '/') (hc : isSegmentChar c = false) :
    c ∉ s := fun hmem => by
  rcases h c hmem with heq | hsegment
  · exact hslash heq
  · rw [hc] at hsegment
    cases hsegment

theorem colon_not_mem (h : IsPathText s) : ':' ∉ s := h.not_mem (by decide) (by decide)

theorem not_endsRoute (h : IsPathText s) : ∀ c ∈ s, endsRoute c = false := fun c hc => by
  have hmark : c ≠ '?' := fun heq => h.not_mem (by decide) (by decide) (heq ▸ hc)
  have hhash : c ≠ '#' := fun heq => h.not_mem (by decide) (by decide) (heq ▸ hc)
  simp [endsRoute, hmark, hhash]

end IsPathText

/-! ## Reading a text with a query -/

/-- **The path of a text ends before its query**: `readPath` leaves the query. -/
theorem readPath_append_query (kind : SchemeKind) (p : PathDraft) (segment : List Char)
    {s : List Char} (hs : ∀ c ∈ s, endsRoute c = false) (query : List Char) :
    ∃ q, readPath kind p segment s = (q, []) ∧
      readPath kind p segment (s ++ '?' :: query) = (q, '?' :: query) := by
  induction s generalizing p segment with
  | nil =>
    have hslash : isSlash kind '?' = false := by cases kind <;> rfl
    have hends : endsRoute '?' = true := rfl
    exact ⟨_, rfl, by simp [readPath, hslash, hends]⟩
  | cons c r ih =>
    have hr : ∀ d ∈ r, endsRoute d = false := fun d hd => hs d (List.mem_cons_of_mem c hd)
    rw [List.cons_append]
    simp only [readPath, hs c List.mem_cons_self, Bool.false_eq_true, if_false]
    -- a slash ends a segment and any other character belongs to it, with a query and without
    split
    · exact ih _ _ hr
    · split
      · exact ih _ _ hr
      · exact ih _ _ hr

theorem readSegments_append_query (kind : SchemeKind) (before : List (List Char)) {s : List Char}
    (hs : ∀ c ∈ s, endsRoute c = false) (query : List Char) :
    ∃ q, readSegments kind before s = (q, []) ∧
      readSegments kind before (s ++ '?' :: query) = (q, '?' :: query) := by
  obtain ⟨q, hread, hreadQuery⟩ := readPath_append_query kind ⟨before, true⟩ [] hs query
  unfold readSegments
  rw [hread, hreadQuery]
  exact ⟨_, rfl, rfl⟩

/-- A query is put behind a URL that has neither query nor fragment. -/
theorem chars_withRest_query {u : Url} (hspecial : kindOf u.scheme = .special) {query : List Char}
    (hquery : IsQueryText query) :
    (withRest u ('?' :: query)).chars = (withRest u []).chars ++ '?' :: query := by
  have hplain : ∀ c ∈ query, reservedInSpecialQuery c = false := fun c hc =>
    (plain_of_isQueryChar (hquery c hc)).2.2
  have hhash : ∀ c ∈ query, (c != '#') = true := fun c hc => by
    rw [bne_iff_ne]
    rintro rfl
    exact absurd (hplain _ hc) (by decide)
  have htake : query.takeWhile (· != '#') = query := List.takeWhile_eq_self_iff.2 hhash
  have hdrop : query.dropWhile (· != '#') = [] := (Chars.dropWhile_eq_nil_iff _ _).2 hhash
  have hencode : encode reservedInSpecialQuery query = query := encode_eq_self hplain
  simp [withRest, withRest.fragmentOf?, chars, hspecial, SchemeKind.isSpecial, htake, hdrop,
    hencode]

theorem query_asDirectory (u : Url) : u.asDirectory.query = u.query := by
  unfold asDirectory
  split <;> (split <;> rfl)

/-- A URL is its own front without query and fragment iff it has no query. -/
theorem chars_withRest_nil_eq_iff (u : Url) :
    (withRest u []).chars = { u with fragment := none }.chars ↔ u.query = none := by
  obtain ⟨scheme, authority, route, query, fragment⟩ := u
  cases query with
  | none => simp [withRest, withRest.fragmentOf?]
  | some q => simp [withRest, withRest.fragmentOf?, chars]

/-- A text that begins with neither a slash nor a query stands for what is below the directory of
the base. -/
theorem readBeside_of_path [Names] {base : Url} {c : Char} (heither : eitherSlash c = false)
    (hends : endsRoute c = false) (t : List Char) :
    readBeside base (c :: t) =
      .ok (base.onRoute (readSegments (kindOf base.scheme) (pop base.segments) (c :: t)).1
        (readSegments (kindOf base.scheme) (pop base.segments) (c :: t)).2) := by
  simp only [endsRoute, Bool.or_eq_false_iff, beq_eq_false_iff_ne] at hends
  unfold readBeside
  split
  next heq => cases heq
  next heq => exact absurd (List.cons.inj heq).1 hends.1
  next heq => exact absurd (List.cons.inj heq).1 hends.2
  next heq =>
    obtain ⟨rfl, rfl⟩ := List.cons.inj heq
    rw [heither]
    rfl

/-- Next to a base a text with a path stands for the same with and without a query (`readBeside`),
the query apart. -/
theorem readBeside_query [Names] {base : Url} (hspecial : kindOf base.scheme = .special)
    {s query : List Char} (hs : IsPathText s) (hhead : ∃ c r, s = c :: r ∧ c ≠ '/')
    (hquery : IsQueryText query) :
    ∃ u v, readBeside base s = .ok u ∧ readBeside base (s ++ '?' :: query) = .ok v ∧
      v.chars = u.chars ++ '?' :: query := by
  obtain ⟨c, r, rfl, hslash⟩ := hhead
  obtain ⟨path, hread, hreadQuery⟩ := readSegments_append_query (kindOf base.scheme)
    (pop base.segments) hs.not_endsRoute query
  have hbackslash : c ≠ '\\' := by
    rintro rfl
    exact hs.not_mem (by decide) (by decide) List.mem_cons_self
  have heither : eitherSlash c = false := by simp [eitherSlash, hslash, hbackslash]
  have hends := hs.not_endsRoute c List.mem_cons_self
  have hbeside : ∀ (t : List Char) (rest : List Char),
      readSegments (kindOf base.scheme) (pop base.segments) (c :: t) = (path, rest) →
      readBeside base (c :: t) = .ok (base.onRoute path rest) := fun t rest ht => by
    rw [readBeside_of_path heither hends, ht]
  exact ⟨_, _, hbeside r [] hread, hbeside _ _ hreadQuery,
    chars_withRest_query (by simpa using hspecial) hquery⟩

/-- A text without a colon before its query has no scheme. -/
theorem splitScheme?_eq_none {s : List Char} (hs : ':' ∉ s) (query : List Char) :
    splitScheme? s = none ∧ splitScheme? (s ++ '?' :: query) = none := by
  have hmark : isSchemeChar '?' = false := by decide
  have hnone : ∀ t : List Char, (t.dropWhile isSchemeChar).head? ≠ some ':' →
      splitScheme? t = none := by
    intro t ht
    unfold splitScheme?
    split
    next heq => exact absurd (by rw [heq]; rfl) ht
    next => rfl
  -- the question mark is no character of a scheme, so no colon behind it is looked at
  constructor
  · refine hnone s fun hhead => hs ?_
    exact (List.dropWhile_suffix _).subset (List.mem_of_mem_head? hhead)
  · refine hnone _ fun hhead => ?_
    rw [List.dropWhile_append] at hhead
    split at hhead
    · rw [List.dropWhile_cons_of_neg (by simp [hmark])] at hhead
      cases hhead
    · next hne =>
      rw [List.head?_append_of_ne_nil _ (by simpa using hne)] at hhead
      exact hs ((List.dropWhile_suffix _).subset (List.mem_of_mem_head? hhead))

/-- The reader of URLs takes nothing off a text without blanks. -/
theorem cleaned_eq_self {s : List Char} (h : ∀ c ∈ s, 0x20 < c.toNat) : cleaned s = s := by
  have hkeep : ∀ t : List Char, (∀ c ∈ t, 0x20 < c.toNat) →
      t.dropWhile (fun c => decide (c.toNat ≤ 0x20)) = t := by
    intro t ht
    cases t with
    | nil => rfl
    | cons c r =>
      have hc : ¬decide (c.toNat ≤ 0x20) = true := by simpa using ht c List.mem_cons_self
      exact List.dropWhile_cons_of_neg hc
  unfold cleaned
  simp only
  rw [hkeep s h, hkeep s.reverse fun c hc => h c (List.mem_reverse.1 hc), List.reverse_reverse,
    filter_visible h]

/-! ## Joining -/

/-- **What is joined to a base keeps its query, and the query changes nothing else** (`Url.join`):
the text has a path, or else the base no query. -/
theorem join_query [Names] {base : Url} (h : base.Settled) {s query : List Char} (hs : IsPathText s)
    (hhead : s.head? ≠ some '/') (hquery : IsQueryText query) :
    ∃ u v, base.join (String.ofList s) = .ok u ∧
      base.join (String.ofList (s ++ '?' :: query)) = .ok v ∧
      (v.chars = u.chars ++ '?' :: query ↔ (s = [] → base.query = none)) := by
  have hvisible : ∀ c ∈ s ++ '?' :: query, 0x20 < c.toNat := fun c hc =>
    (plain_of_isQueryChar (hs.append_query hquery c hc)).1
  obtain ⟨hsplit, hsplitQuery⟩ := splitScheme?_eq_none hs.colon_not_mem query
  have hjoin : base.join (String.ofList s) = readBeside base s := by
    rw [join_eq h, String.toList_ofList,
      cleaned_eq_self fun c hc => hvisible c (List.mem_append_left _ hc), hsplit]
  have hjoinQuery : base.join (String.ofList (s ++ '?' :: query)) =
      readBeside base (s ++ '?' :: query) := by
    rw [join_eq h, String.toList_ofList, cleaned_eq_self hvisible, hsplitQuery]
  rw [hjoin, hjoinQuery]
  -- an empty text leaves the path of the base, and then its query as well
  cases s with
  | cons c r =>
    have hslash : c ≠ '/' := fun heq => hhead (congrArg some heq)
    obtain ⟨u, v, hu, hv, hchars⟩ := readBeside_query h.special hs ⟨c, r, rfl, hslash⟩ hquery
    exact ⟨u, v, hu, hv, iff_of_true hchars (fun heq => by cases heq)⟩
  | nil =>
    have hchars : (withRest base ('?' :: query)).chars = (withRest base []).chars ++ '?' :: query :=
      chars_withRest_query h.special hquery
    refine ⟨_, _, rfl, rfl, ?_⟩
    rw [List.nil_append, hchars, List.append_cancel_right_eq]
    simp only [true_implies]
    exact chars_withRest_nil_eq_iff base

end RestCase.Url

namespace RestCase.Settings

open Url

/-! ## Endpoints -/

section Query

variable {settings : Settings} {base endpoint query : String} {b u : Url}

theorem trim_of_isQueryText (h : IsQueryText endpoint.toList) : Text.trim endpoint = endpoint := by
  rw [Text.trim, Chars.trim_eq_self fun c hc => (plain_of_isQueryChar (h c hc)).2.1,
    String.ofList_toList]

/-- An endpoint without blanks and without `://` is joined to the base: `Settings.resolve` is
`Url.join` there. -/
theorem resolve_of_join [Names] (hbase : settings.baseUrl = some base)
    (hparse : Url.parse base = .ok b) (hne : endpoint ≠ "") (hplain : IsQueryText endpoint.toList)
    (hrelative : Text.contains "://" endpoint = false)
    (hjoin : b.asDirectory.join (withoutSlashes endpoint) = .ok u) :
    settings.resolve endpoint = .ok u.text := by
  have hempty : endpoint.isEmpty = false := by
    rw [Bool.eq_false_iff]
    exact fun h => hne (String.isEmpty_iff.1 h)
  unfold resolve
  simp only [trim_of_isQueryText hplain, hempty, hrelative, hbase, hparse, hjoin,
    Bool.false_eq_true, if_false]

theorem toList_append_query (endpoint query : String) :
    (endpoint ++ "?" ++ query).toList = endpoint.toList ++ '?' :: query.toList := by
  simp

/-- An endpoint without a colon has `://` in it exactly if its query has. -/
theorem contains_append_query (hcolon : ':' ∉ endpoint.toList) :
    Text.contains "://" (endpoint ++ "?" ++ query) = Text.contains "://" query := by
  have hpath : ¬ "://".toList <:+: endpoint.toList := fun h =>
    hcolon (h.subset List.mem_cons_self)
  rw [Bool.eq_iff_iff, Text.contains, Text.contains, Chars.contains_iff, Chars.contains_iff,
    toList_append_query, Chars.infix_append_cons_iff (by decide) (by decide)]
  exact or_iff_right hpath

/-- The slashes at the front of an endpoint stand before its query. -/
theorem withoutSlashes_append_query :
    withoutSlashes (endpoint ++ "?" ++ query) =
      String.ofList ((withoutSlashes endpoint).toList ++ '?' :: query.toList) := by
  unfold withoutSlashes
  rw [toList_append_query, List.dropWhile_append, String.toList_ofList]
  split
  · next h => rw [List.isEmpty_iff.1 h]; rfl
  · rfl

/-- What is left of an endpoint without the slashes at its front. -/
theorem isPathText_withoutSlashes (h : IsPathText endpoint.toList) :
    IsPathText (withoutSlashes endpoint).toList ∧
      (withoutSlashes endpoint).toList.head? ≠ some '/' ∧
      ((withoutSlashes endpoint).toList = [] ↔ ∀ c ∈ endpoint.toList, c = '/') := by
  unfold withoutSlashes
  rw [String.toList_ofList]
  refine ⟨fun c hc => h c ((List.dropWhile_suffix _).subset hc), fun hhead => ?_, ?_⟩
  · have hfirst := List.head?_dropWhile_not (· == '/') endpoint.toList
    rw [hhead] at hfirst
    exact absurd hfirst (by decide)
  · rw [Chars.dropWhile_eq_nil_iff]
    simp

/-- An endpoint without a scheme that has `://` in it is no URL of its own. -/
theorem resolve_of_contains [Names] (hne : endpoint ≠ "") (hplain : IsQueryText endpoint.toList)
    (hcontains : Text.contains "://" endpoint = true)
    (hsplit : splitScheme? endpoint.toList = none) :
    settings.resolve endpoint = .error (.invalid endpoint .noBase) := by
  have hempty : endpoint.isEmpty = false := by
    rw [Bool.eq_false_iff]
    exact fun h => hne (String.isEmpty_iff.1 h)
  have hparse : Url.parse endpoint = .error .noBase := by
    unfold parse readWith
    simp only [cleaned_eq_self fun c hc => (plain_of_isQueryChar (hplain c hc)).1, hsplit]
  unfold resolve
  simp only [trim_of_isQueryText hplain, hempty, hcontains, hparse, Bool.false_eq_true, if_false,
    if_true]

theorem isQueryText_append_query (hendpoint : IsPathText endpoint.toList)
    (hquery : IsQueryText query.toList) : IsQueryText (endpoint ++ "?" ++ query).toList := by
  rw [toList_append_query]
  exact hendpoint.append_query hquery

/-- A query with `://` in it leaves an endpoint no URL on any base. -/
theorem resolve_append_query_of_contains [Names] (hendpoint : IsPathText endpoint.toList)
    (hquery : IsQueryText query.toList) (hcontains : Text.contains "://" query = true) :
    settings.resolve (endpoint ++ "?" ++ query) =
      .error (.invalid (endpoint ++ "?" ++ query) .noBase) := by
  have hcolon : ':' ∉ endpoint.toList := hendpoint.colon_not_mem
  have hplain : IsQueryText (endpoint ++ "?" ++ query).toList :=
    isQueryText_append_query hendpoint hquery
  refine resolve_of_contains (by simp) hplain ((contains_append_query hcolon).trans hcontains) ?_
  rw [toList_append_query]
  exact (splitScheme?_eq_none hcolon query.toList).2

/-- An endpoint is joined to the base, and with a query without `://` it is joined with the query:
to a URL with the query behind it, unless there is a query of the base in its place. -/
theorem exists_resolve_append_query [Names] [LawfulNames] (hbase : settings.baseUrl = some base)
    (hparse : Url.parse base = .ok b) (hspecial : kindOf b.scheme = .special) (hne : endpoint ≠ "")
    (hendpoint : IsPathText endpoint.toList) (hquery : IsQueryText query.toList) :
    ∃ u v : Url, settings.resolve endpoint = .ok u.text ∧
      (Text.contains "://" query = false →
        settings.resolve (endpoint ++ "?" ++ query) = .ok v.text) ∧
      (v.text = u.text ++ "?" ++ query ↔ ((∀ c ∈ endpoint.toList, c = '/') → b.query = none)) := by
  have hcolon : ':' ∉ endpoint.toList := hendpoint.colon_not_mem
  have hplain : IsQueryText (endpoint ++ "?" ++ query).toList :=
    isQueryText_append_query hendpoint hquery
  have hrelative : Text.contains "://" endpoint = false := by
    rw [Bool.eq_false_iff]
    exact fun h => hcolon ((Chars.contains_iff.1 h).subset List.mem_cons_self)
  obtain ⟨hdirectory, -, -⟩ := asDirectory_settled (parse_settled hparse hspecial)
  obtain ⟨hpath, hhead, hslashes⟩ := isPathText_withoutSlashes hendpoint
  obtain ⟨u, v, hu, hv, hchars⟩ := join_query hdirectory hpath hhead hquery
  rw [String.ofList_toList] at hu
  rw [← withoutSlashes_append_query] at hv
  refine ⟨u, v, resolve_of_join hbase hparse hne hendpoint.isQueryText hrelative hu, ?_, ?_⟩
  · intro hcontains
    exact resolve_of_join hbase hparse (by simp) hplain
      ((contains_append_query hcolon).trans hcontains) hv
  · rw [← String.toList_inj, toList_append_query, text, text, String.toList_ofList,
      String.toList_ofList, hchars, hslashes, query_asDirectory]

/-- **When a query is only put behind the URL of an endpoint.**  The endpoint consists of segments
and slashes (`IsPathText`), and `Settings.resolve` gives it a URL on every base with the scheme of
the web.  With a query (`IsQueryText`) it has the same URL and the query behind it, if there is no
`://` in the query and the endpoint is more than slashes (or the base has no query that would
stand in its place).  A query with `://` unmakes the endpoint. -/
theorem resolve_query [Names] [LawfulNames] (hbase : settings.baseUrl = some base)
    (hparse : Url.parse base = .ok b)
    (hscheme : b.scheme = "http".toList ∨ b.scheme = "https".toList) (hne : endpoint ≠ "")
    (hendpoint : IsPathText endpoint.toList) (hquery : IsQueryText query.toList) :
    ∃ url, settings.resolve endpoint = .ok url ∧
      (settings.resolve (endpoint ++ "?" ++ query) = .ok (url ++ "?" ++ query) ↔
        Text.contains "://" query = false ∧
          ((∀ c ∈ endpoint.toList, c = '/') → b.query = none)) ∧
      (Text.contains "://" query = true → settings.resolve (endpoint ++ "?" ++ query) =
        .error (.invalid (endpoint ++ "?" ++ query) .noBase)) := by
  have hspecial : kindOf b.scheme = .special := by
    rcases hscheme with hscheme | hscheme <;> rw [hscheme] <;> decide
  obtain ⟨u, v, hresolve, hjoined, hbehind⟩ :=
    exists_resolve_append_query hbase hparse hspecial hne hendpoint hquery
  have hunmade : Text.contains "://" query = true → settings.resolve (endpoint ++ "?" ++ query) =
      .error (.invalid (endpoint ++ "?" ++ query) .noBase) :=
    resolve_append_query_of_contains hendpoint hquery
  refine ⟨u.text, hresolve, ?_, hunmade⟩
  cases hcontains : Text.contains "://" query with
  | true =>
    rw [hunmade hcontains]
    exact iff_of_false nofun fun h => Bool.noConfusion h.1
  | false =>
    rw [hjoined hcontains, Except.ok.injEq, hbehind]
    exact (and_iff_right rfl).symm

end Query

/-- A query with colons, slashes and question marks, and no `://` in it. -/
theorem resolve_query_loopback :
    (onLoopback.baseUrl = some "http://[::1]:8080/v1" ∧
      Url.parse "http://[::1]:8080/v1" = .ok loopback ∧ loopback.scheme = "http".toList ∧
      IsPathText "/users/1".toList ∧ IsQueryText "at=10:30&to=//a:b?/".toList) ∧
    onLoopback.resolve ("/users/1" ++ "?" ++ "at=10:30&to=//a:b?/") =
      .ok ("http://[::1]:8080/v1/users/1" ++ "?" ++ "at=10:30&to=//a:b?/") := by
  have hbase : onLoopback.baseUrl = some "http://[::1]:8080/v1" := rfl
  have hpath : IsPathText "/users/1".toList := by decide +kernel
  have hquery : IsQueryText "at=10:30&to=//a:b?/".toList := by decide +kernel
  have hplain : onLoopback.resolve "/users/1" = .ok "http://[::1]:8080/v1/users/1" :=
    eq_ok_of_toOption (by decide +kernel)
  obtain ⟨url, hurl, hiff, -⟩ :=
    resolve_query hbase parse_loopback (.inl rfl) (by decide) hpath hquery
  obtain rfl : url = "http://[::1]:8080/v1/users/1" := Except.ok.inj (hurl.symm.trans hplain)
  exact ⟨⟨hbase, parse_loopback, rfl, hpath, hquery⟩, hiff.2 ⟨by decide +kernel, fun _ => rfl⟩⟩

/-- **A URL in the query of an endpoint unmakes the endpoint**, though it begins with a slash and
leads to a URL below the base without its query. -/
theorem exists_query_that_unmakes_endpoint :
    onLoopback.baseUrl = some "http://[::1]:8080/v1" ∧
    Url.parse "http://[::1]:8080/v1" = .ok loopback ∧ loopback.scheme = "http".toList ∧
    IsPathText "/users".toList ∧ IsQueryText "next=http://other.test/x".toList ∧
    onLoopback.resolve "/users" = .ok "http://[::1]:8080/v1/users" ∧
    onLoopback.resolve ("/users" ++ "?" ++ "next=http://other.test/x") ≠
      .ok ("http://[::1]:8080/v1/users" ++ "?" ++ "next=http://other.test/x") := by
  have hunmade : (onLoopback.resolve ("/users" ++ "?" ++ "next=http://other.test/x")).toOption
      = none := by
    decide +kernel
  refine ⟨rfl, parse_loopback, rfl, by decide +kernel, by decide +kernel,
    eq_ok_of_toOption (by decide +kernel), fun h => ?_⟩
  rw [h] at hunmade
  cases hunmade

end RestCase.Settings
