/-
# RestCase.Proofs.Url.Directory — bases as directories

Joined by the rules of URLs, an endpoint would take the place of the last segment of its base, and
one that begins with a slash the place of the whole path.  A base of a run is a directory instead:
it gets a slash at its end if it has none, and an endpoint loses the slashes at its front.  So the
URL of an endpoint is the base, one slash and the endpoint, for all bases and endpoints that the
reader of URLs leaves as they are written (`Settings.resolve_below`).

`PlainBase` is such a base and `parse_asDirectory` what it is read as; what is joined to it stands
below it (`join_directory`).
-/
import RestCase.Proofs.Url.Query

namespace RestCase.Url

/-! ## Segments -/

/-- A segment that is written as it is. -/
structure IsSegment (s : List Char) : Prop where
  not_nil : s ≠ []
  chars : ∀ c ∈ s, isSegmentChar c = true

instance (s : List Char) : Decidable (IsSegment s) :=
  decidable_of_iff (s ≠ [] ∧ s.all isSegmentChar = true)
    ⟨fun ⟨hne, hchars⟩ => ⟨hne, List.all_eq_true.1 hchars⟩,
    fun h => ⟨h.not_nil, List.all_eq_true.2 h.chars⟩⟩

theorem ascii_of_isSegmentChar {c : Char} (h : isSegmentChar c = true) : c.toNat < 0x80 :=
  ascii_of_isQueryChar (by simp [isQueryChar, h])

/-- A character of a segment separates nothing, is not encoded, and stays one without case. -/
theorem plain_of_isSegmentChar {c : Char} (h : isSegmentChar c = true) :
    isSlash .special c = false ∧ endsRoute c = false ∧ reservedInPath c = false ∧
      isSegmentChar c.toLower = true := by
  have hall : ∀ n < 0x80, isSegmentChar (Char.ofNat n) = true →
      isSlash .special (Char.ofNat n) = false ∧ endsRoute (Char.ofNat n) = false ∧
        reservedInPath (Char.ofNat n) = false ∧ isSegmentChar (Char.ofNat n).toLower = true := by
    decide
  simpa using hall c.toNat (ascii_of_isSegmentChar h) (by simpa using h)

/-- No segment made of such characters leads upwards or stays where it is. -/
theorem not_dots {s : List Char} (h : ∀ c ∈ s, isSegmentChar c = true) :
    isDot s = false ∧ isDotDot s = false := by
  have hlower : ∀ c ∈ Chars.toLower s, isSegmentChar c = true := fun c hc => by
    obtain ⟨d, hd, rfl⟩ := List.mem_map.1 hc
    exact (plain_of_isSegmentChar (h d hd)).2.2.2
  have hne : ∀ dots : String, dots.toList.any (fun c => !isSegmentChar c) = true →
      String.ofList (Chars.toLower s) ≠ dots := by
    rintro dots hdots rfl
    obtain ⟨c, hc, hnot⟩ := List.any_eq_true.1 hdots
    rw [String.toList_ofList] at hc
    rw [hlower c hc] at hnot
    cases hnot
  constructor
  · simp [isDot, hne "." (by decide), hne "%2e" (by decide)]
  · simp [isDotDot, hne ".." (by decide), hne ".%2e" (by decide), hne "%2e." (by decide),
      hne "%2e%2e" (by decide)]

theorem add_of_chars (p : PathDraft) {s : List Char} (h : ∀ c ∈ s, isSegmentChar c = true)
    (slash : Bool) : p.add .special s slash = { p with segments := p.segments ++ [s] } := by
  obtain ⟨hdot, hdotdot⟩ := not_dots h
  unfold PathDraft.add
  rw [hdot, hdotdot]
  rfl

/-- The characters of a segment are read into it. -/
theorem readPath_chars (p : PathDraft) (segment : List Char) {s : List Char}
    (h : ∀ c ∈ s, isSegmentChar c = true) (rest : List Char) :
    readPath .special p segment (s ++ rest) = readPath .special p (segment ++ s) rest := by
  induction s generalizing segment with
  | nil => rw [List.nil_append, List.append_nil]
  | cons c r ih =>
    rw [List.forall_mem_cons] at h
    obtain ⟨hslash, hends, hsame, -⟩ := plain_of_isSegmentChar h.1
    have hencode : encodeChar reservedInPath c = [c] := by
      unfold encodeChar
      rw [hsame]
      rfl
    have hdrive : afterDrive .special p segment c = false := rfl
    rw [List.cons_append, readPath, hslash, hends, hdrive, hencode]
    simp only [Bool.false_eq_true, if_false]
    rw [ih _ h.2, List.append_assoc, List.singleton_append]

/-- **A path is read segment by segment**: `readPath` on segments with slashes between them. -/
theorem readPath_intercalate (before : List (List Char)) {l : List (List Char)} (hne : l ≠ [])
    (h : ∀ s ∈ l, ∀ c ∈ s, isSegmentChar c = true) :
    readPath .special ⟨before, true⟩ [] (['/'].intercalate l) = (⟨before ++ l, true⟩, []) := by
  -- each slash closes a segment, which then stands at the end of `before`
  induction l generalizing before with
  | nil => exact absurd rfl hne
  | cons s r ih =>
    rw [List.forall_mem_cons] at h
    cases r with
    | nil =>
      rw [List.intercalate_singleton, ← List.append_nil s, readPath_chars _ _ h.1]
      simp [readPath, add_of_chars _ h.1]
    | cons next r =>
      have hslash : isSlash .special '/' = true := rfl
      rw [List.intercalate_cons_cons, List.append_assoc, readPath_chars _ _ h.1]
      simp only [List.nil_append, List.singleton_append, readPath, hslash, if_true,
        add_of_chars _ h.1]
      rw [ih (before ++ [s]) (List.cons_ne_nil _ _) h.2]
      simp

theorem readSegments_intercalate (before : List (List Char)) {l : List (List Char)} (hne : l ≠ [])
    (h : ∀ s ∈ l, ∀ c ∈ s, isSegmentChar c = true) :
    readSegments .special before (['/'].intercalate l) = (⟨before ++ l, true⟩, []) := by
  rw [readSegments, readPath_intercalate before hne h]
  rfl

/-- A path as it is written behind an authority. -/
theorem flatMap_slash {l : List (List Char)} (hne : l ≠ []) :
    (l.flatMap fun s => '/' :: s) = '/' :: ['/'].intercalate l := by
  induction l with
  | nil => exact absurd rfl hne
  | cons s r ih =>
    cases r with
    | nil => simp
    | cons next r =>
      rw [List.flatMap_cons, ih (List.cons_ne_nil _ _), List.intercalate_cons_cons]
      simp

/-- The path behind an authority has at least one segment, if only an empty one. -/
theorem readPathStart_flatMap {l : List (List Char)}
    (h : ∀ s ∈ l, ∀ c ∈ s, isSegmentChar c = true) :
    readPathStart .special (l.flatMap fun s => '/' :: s) =
      (⟨if l = [] then [[]] else l, true⟩, []) := by
  by_cases hne : l = []
  · subst hne
    rfl
  · have hslash : isSlash .special '/' = true := rfl
    rw [flatMap_slash hne, readPathStart, if_neg hne, hslash, if_pos rfl]
    exact readSegments_intercalate [] hne h

/-! ## Names of letters -/

/-- A small letter. -/
def isSmallLetter (c : Char) : Bool := 'a' ≤ c && c ≤ 'z'

theorem isNameChar_of_isSmallLetter {c : Char} (h : isSmallLetter c = true) :
    isNameChar c = true := by
  rw [isNameChar, show ('a' ≤ c && c ≤ 'z') = true from h, Bool.true_or]

/-- A small letter is no digit of an address. -/
theorem not_digit_of_isSmallLetter {c : Char} (h : isSmallLetter c = true) :
    c ≠ '0' ∧ Chars.isDigit c = false ∧ isDigitOf 10 c = false := by
  have hall : ∀ n < 0x80, isSmallLetter (Char.ofNat n) = true → Char.ofNat n ≠ '0' ∧
      Chars.isDigit (Char.ofNat n) = false ∧ isDigitOf 10 (Char.ofNat n) = false := by
    decide
  simpa using hall c.toNat (ascii_of_isNameChar (isNameChar_of_isSmallLetter h)) (by simpa using h)

/-- A label of letters. -/
structure IsWord (label : List Char) : Prop where
  not_nil : label ≠ []
  letters : ∀ c ∈ label, isSmallLetter c = true

instance (label : List Char) : Decidable (IsWord label) :=
  decidable_of_iff (label ≠ [] ∧ label.all isSmallLetter = true)
    ⟨fun ⟨hne, hletters⟩ => ⟨hne, List.all_eq_true.1 hletters⟩,
    fun h => ⟨h.not_nil, List.all_eq_true.2 h.letters⟩⟩

theorem IsWord.not_number {label : List Char} (h : IsWord label) :
    label.all Chars.isDigit = false ∧ partValue? label = none := by
  obtain ⟨c, r, rfl⟩ := List.exists_cons_of_ne_nil h.not_nil
  obtain ⟨hzero, hdecimal, hdigit⟩ := not_digit_of_isSmallLetter (h.letters c List.mem_cons_self)
  have hparts : partDigits (c :: r) = (10, c :: r) := by
    unfold partDigits
    split
    next heq => exact absurd (List.cons.inj heq).1 hzero
    next heq => exact absurd (List.cons.inj heq).1 hzero
    next heq => exact absurd (List.cons.inj heq).1 hzero
    next => rfl
  refine ⟨by simp [hdecimal], ?_⟩
  unfold partValue?
  simp [hparts, hdigit]

theorem IsWord.chars {label : List Char} (h : IsWord label) : ∀ c ∈ label, isNameChar c = true :=
  fun c hc => isNameChar_of_isSmallLetter (h.letters c hc)

variable {labels : List (List Char)}

theorem nameParts_intercalate (hne : labels ≠ []) (h : ∀ label ∈ labels, IsWord label) :
    nameParts (['.'].intercalate labels) = labels := by
  have hsplit : (['.'].intercalate labels).splitOnP (· == '.') = labels :=
    List.splitOn_intercalate '.' (fun label hlabel hdot =>
      (settled_of_isNameChar ((h label hlabel).chars '.' hdot)).2.1 rfl) hne
  have hlast : (labels.getLast? == some []) = false := by
    rw [beq_eq_false_iff_ne]
    exact fun heq => (h [] (List.mem_of_getLast? heq)).not_nil rfl
  unfold nameParts
  simp only [hsplit, hlast, Bool.false_eq_true, if_false]

/-- **A name of letters is read as it is written**: its labels are `IsWord`, and `LawfulNames`
leaves it alone. -/
theorem settled_name [Names] [LawfulNames] (hne : labels ≠ [])
    (h : ∀ label ∈ labels, IsWord label) :
    (Host.name (['.'].intercalate labels)).Settled := by
  have hdomain : Names.toAscii? (['.'].intercalate labels) = some (['.'].intercalate labels) :=
    LawfulNames.plain hne fun label hlabel => ⟨(h label hlabel).not_nil, (h label hlabel).chars⟩
  have hnumber : endsInNumber (['.'].intercalate labels) = false := by
    unfold endsInNumber
    rw [nameParts_intercalate hne h]
    cases hlast : labels.getLast? with
    | none => rfl
    | some last =>
      obtain ⟨hdigits, hvalue⟩ := (h last (List.mem_of_getLast? hlast)).not_number
      simp [hdigits, hvalue]
  have hsome : ['.'].intercalate labels ≠ [] := by
    obtain ⟨label, others, rfl⟩ := List.exists_cons_of_ne_nil hne
    have hlabel := (h label List.mem_cons_self).not_nil
    cases others <;> simp [hlabel]
  refine settled_of_toAscii? hsome hdomain ?_
  rw [Host.chars, hnumber]
  rfl

/-! ## Bases -/

/-- A base URL with a scheme of the web, a name of letters, perhaps a port other than the one that
the scheme stands for, and a path, which may end in a slash. -/
structure PlainBase where
  scheme : List Char
  labels : List (List Char)
  port : Option Nat
  segments : List (List Char)
  slash : Bool
  web : scheme = "http".toList ∨ scheme = "https".toList
  named : labels ≠ []
  words : ∀ label ∈ labels, IsWord label
  fits : ∀ n, port = some n → n ≤ 65535 ∧ defaultPort? scheme ≠ some n
  written : ∀ s ∈ segments, IsSegment s

namespace PlainBase

variable (base : PlainBase)

/-- The authority of the base. -/
def authority : Authority := ⟨[], [], .name (['.'].intercalate base.labels), base.port⟩

/-- The base without a slash at its end. -/
def stem : List Char :=
  base.scheme ++ "://".toList ++ ['.'].intercalate base.labels ++ portChars base.port ++
    base.segments.flatMap fun s => '/' :: s

/-- The base as it is written. -/
def text : String := String.ofList (base.stem ++ if base.slash then ['/'] else [])

/-- The base with one slash at its end. -/
def directory : String := String.ofList (base.stem ++ ['/'])

/-- What the base as a directory is read as. -/
def asUrl : Url :=
  ⟨base.scheme, some base.authority, .segments (base.segments ++ [[]]), none, none⟩

theorem special : kindOf base.scheme = .special := by
  rcases base.web with h | h <;> rw [h] <;> decide

theorem settled_authority [Names] [LawfulNames] : base.authority.Settled base.scheme := by
  refine ⟨?_, ?_, settled_name base.named base.words, base.fits⟩
  · exact List.forall_mem_nil _
  · exact List.forall_mem_nil _

theorem settled [Names] [LawfulNames] : base.asUrl.Settled :=
  ⟨base.special, ⟨base.authority, rfl, base.settled_authority⟩, ⟨_, rfl⟩⟩

theorem chars_authority :
    base.authority.chars = ['.'].intercalate base.labels ++ portChars base.port := by
  rw [Authority.Settled.chars_eq]
  rfl

/-- The segments of the path; a slash at the end is a segment with nothing in it. -/
def route : List (List Char) := base.segments ++ if base.slash then [[]] else []

theorem chars_of_mem_route : ∀ s ∈ base.route, ∀ c ∈ s, isSegmentChar c = true := by
  intro s hs
  rcases List.mem_append.1 hs with hs | hs
  · exact (base.written s hs).chars
  · cases hslash : base.slash with
    | false => simp [hslash] at hs
    | true =>
      obtain rfl : s = [] := by simpa [hslash] using hs
      exact List.forall_mem_nil _

theorem toList_text : base.text.toList = base.scheme ++ ':' :: '/' :: '/' ::
    (base.authority.chars ++ base.route.flatMap fun s => '/' :: s) := by
  rw [text, String.toList_ofList, stem, route, chars_authority]
  cases base.slash <;> simp

theorem cleaned_text : cleaned base.text.toList = base.text.toList := by
  refine cleaned_eq_self fun c hc => ?_
  rw [toList_text, ← List.cons_append, ← List.cons_append, ← List.cons_append, ← List.append_assoc,
    List.mem_append] at hc
  rcases hc with hc | hc
  · exact visible_of_settled base.special base.settled_authority c hc
  · obtain ⟨s, hs, hc⟩ := List.mem_flatMap.1 hc
    have hpath : IsPathText ('/' :: s) := fun d hd =>
      (List.mem_cons.1 hd).imp_right fun hd => base.chars_of_mem_route s hs d hd
    exact (plain_of_isQueryChar (hpath.isQueryText c hc)).1

/-- **A base is read as it is written**, and as a directory (`asDirectory`) it has one slash at
its end. -/
theorem parse_asDirectory [Names] [LawfulNames] :
    ∃ u, parse base.text = .ok u ∧ u.asDirectory = base.asUrl := by
  have hfollows : FollowsAuthority (base.route.flatMap fun s => '/' :: s) := by
    cases base.route with
    | nil => exact fun c hc => by cases hc
    | cons s r => exact fun c hc => by cases hc; rfl
  have hparse : parse base.text = readAuthority base.scheme
      (base.authority.chars ++ base.route.flatMap fun s => '/' :: s) :=
    parse_eq_readAuthority base.special base.settled_authority
      (base.cleaned_text.trans base.toList_text)
  refine ⟨_, hparse.trans (base.settled_authority.readAuthority_chars_eq base.special hfollows), ?_⟩
  rw [readPathStart_flatMap base.chars_of_mem_route]
  have hlast : base.segments.getLast? ≠ some [] := fun heq =>
    (base.written [] (List.mem_of_getLast? heq)).not_nil rfl
  unfold asUrl route
  -- without a slash at its end the path gets an empty segment, unless it is empty itself
  cases base.slash with
  | true => simp [asDirectory, withRest, withRest.fragmentOf?]
  | false =>
    cases hsegments : base.segments with
    | nil => simp [asDirectory, withRest, withRest.fragmentOf?]
    | cons s r =>
      rw [hsegments] at hlast
      simp [asDirectory, withRest, withRest.fragmentOf?, hlast]

end PlainBase

/-! ## Endpoints -/

/-- An endpoint: any number of slashes, and then segments with a slash between each two. -/
structure PlainEndpoint where
  slashes : Nat
  segments : List (List Char)
  leads : segments ≠ []
  written : ∀ s ∈ segments, IsSegment s

namespace PlainEndpoint

variable (endpoint : PlainEndpoint)

/-- The endpoint without the slashes at its front. -/
def path : String := String.ofList (['/'].intercalate endpoint.segments)

/-- The endpoint as it is written. -/
def text : String := String.ofList (List.replicate endpoint.slashes '/') ++ endpoint.path

theorem isPathText : IsPathText endpoint.path.toList := by
  rw [path, String.toList_ofList]
  intro c hc
  refine (mem_intercalate hc).imp_right ?_
  rintro ⟨s, hs, hc⟩
  exact (endpoint.written s hs).chars c hc

/-- The path begins with a character of a segment. -/
theorem exists_path_eq : ∃ c r, endpoint.path.toList = c :: r ∧ isSegmentChar c = true := by
  obtain ⟨s, others, hsegments⟩ := List.exists_cons_of_ne_nil endpoint.leads
  have hs : IsSegment s := endpoint.written s (hsegments ▸ List.mem_cons_self)
  obtain ⟨c, r, rfl⟩ := List.exists_cons_of_ne_nil hs.not_nil
  rw [path, String.toList_ofList, hsegments]
  cases others with
  | nil => exact ⟨c, r, List.intercalate_singleton, hs.chars c List.mem_cons_self⟩
  | cons next others =>
    exact ⟨c, _, by rw [List.intercalate_cons_cons]; rfl, hs.chars c List.mem_cons_self⟩

theorem withoutSlashes_text : Settings.withoutSlashes endpoint.text = endpoint.path := by
  obtain ⟨c, r, hpath, hc⟩ := endpoint.exists_path_eq
  have hslash : ¬(c == '/') = true := by
    rw [beq_iff_eq]
    rintro rfl
    cases hc
  rw [Settings.withoutSlashes, text, String.toList_append, String.toList_ofList,
    List.dropWhile_append_of_pos (by simp), hpath,
    List.dropWhile_cons_of_neg (p := (· == '/')) hslash, ← hpath, String.ofList_toList]

theorem isPathText_text : IsPathText endpoint.text.toList := by
  rw [text, String.toList_append, String.toList_ofList]
  intro c hc
  rcases List.mem_append.1 hc with hc | hc
  · exact .inl (List.eq_of_mem_replicate hc)
  · exact endpoint.isPathText c hc

theorem text_ne_empty : endpoint.text ≠ "" := by
  obtain ⟨c, r, hpath, -⟩ := endpoint.exists_path_eq
  rw [← String.toList_inj.ne, text, String.toList_append, hpath]
  simp

end PlainEndpoint

/-- **What is joined to a directory stands below it**, and the last segment of the directory stays
(`Url.join`). -/
theorem join_directory [Names] [LawfulNames] (base : PlainBase) (endpoint : PlainEndpoint) :
    base.asUrl.join endpoint.path =
      .ok { base.asUrl with route := .segments (base.segments ++ endpoint.segments) } := by
  obtain ⟨c, r, hpath, hc⟩ := endpoint.exists_path_eq
  obtain ⟨hslash, hends, -, -⟩ := plain_of_isSegmentChar hc
  have hclean : cleaned endpoint.path.toList = endpoint.path.toList :=
    cleaned_eq_self fun d hd => (plain_of_isQueryChar (endpoint.isPathText.isQueryText d hd)).1
  have hscheme : splitScheme? endpoint.path.toList = none :=
    (splitScheme?_eq_none endpoint.isPathText.colon_not_mem []).1
  have hpop : pop base.asUrl.segments = base.segments := by
    simp [PlainBase.asUrl, Url.segments, pop, isDrive]
  have hread : readSegments .special base.segments endpoint.path.toList =
      (⟨base.segments ++ endpoint.segments, true⟩, []) := by
    rw [PlainEndpoint.path, String.toList_ofList]
    exact readSegments_intercalate _ endpoint.leads fun s hs => (endpoint.written s hs).chars
  have heither : eitherSlash c = false := by
    simpa [eitherSlash, isSlash, SchemeKind.isSpecial] using hslash
  have hspecial : kindOf base.asUrl.scheme = .special := base.special
  rw [join_eq base.settled, hclean, hscheme]
  simp only
  rw [hpath, readBeside_of_path heither hends, ← hpath, hpop, hspecial, hread]
  rfl

/-- What stands below a directory is written behind its slash. -/
theorem text_below (base : PlainBase) (endpoint : PlainEndpoint) :
    ({ base.asUrl with route := .segments (base.segments ++ endpoint.segments) } : Url).text =
      base.directory ++ endpoint.path := by
  rw [← String.toList_inj, String.toList_append, text, PlainBase.directory, PlainEndpoint.path,
    String.toList_ofList, String.toList_ofList, String.toList_ofList]
  simp [chars, PlainBase.asUrl, PlainBase.stem, beforeRoute, Route.chars, base.chars_authority,
    flatMap_slash endpoint.leads]

end RestCase.Url

namespace RestCase.Settings

open Url

/-- **The URL of an endpoint is the base, one slash and the endpoint** (`Settings.resolve` on a
`PlainBase` and a `PlainEndpoint`), whether or not the base ends in a slash, and whatever slashes
the endpoint begins with. -/
theorem resolve_below [Url.Names] [Url.LawfulNames] {settings : Settings} {base : PlainBase}
    (endpoint : PlainEndpoint) (hbase : settings.baseUrl = some base.text) :
    settings.resolve endpoint.text = .ok (base.directory ++ endpoint.path) := by
  obtain ⟨u, hparse, hdirectory⟩ := base.parse_asDirectory
  have hjoin : u.asDirectory.join (withoutSlashes endpoint.text) = .ok
      { base.asUrl with route := .segments (base.segments ++ endpoint.segments) } := by
    rw [hdirectory, endpoint.withoutSlashes_text, join_directory]
  have hrelative : Text.contains "://" endpoint.text = false := by
    rw [Bool.eq_false_iff]
    exact fun h => endpoint.isPathText_text.colon_not_mem
      ((Chars.contains_iff.1 h).subset List.mem_cons_self)
  rw [resolve_of_join hbase hparse endpoint.text_ne_empty endpoint.isPathText_text.isQueryText
    hrelative hjoin, text_below]

/-- A base with a port and a path without a slash at its end. -/
def versioned : PlainBase where
  scheme := "http".toList
  labels := ["api".toList, "local".toList]
  port := some 8080
  segments := ["v1".toList]
  slash := false
  web := .inl rfl
  named := by decide
  words := by decide
  fits := by rintro n ⟨⟩; decide
  written := by decide

/-- An endpoint that begins with two slashes. -/
def twoSlashes : PlainEndpoint where
  slashes := 2
  segments := ["users".toList, "1".toList]
  leads := by decide
  written := by decide

/-- Neither is the last segment of the base replaced nor the path of the base. -/
theorem resolve_below_versioned :
    (standard.withBase "http://api.local:8080/v1").baseUrl = some versioned.text ∧
      (standard.withBase "http://api.local:8080/v1").resolve "//users/1" =
        .ok "http://api.local:8080/v1/users/1" := by
  have hbase : (standard.withBase "http://api.local:8080/v1").baseUrl = some versioned.text := by
    decide +kernel
  have hendpoint : twoSlashes.text = "//users/1" := by decide +kernel
  have hurl : versioned.directory ++ twoSlashes.path = "http://api.local:8080/v1/users/1" := by
    decide +kernel
  refine ⟨hbase, ?_⟩
  rw [← hendpoint, resolve_below twoSlashes hbase, hurl]

end RestCase.Settings
