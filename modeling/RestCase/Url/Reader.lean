/-
# RestCase.Url.Reader — reading URLs

A text is read from left to right: scheme, authority, path, query, fragment (`Url.readWith`).
Blanks and control characters around it and line breaks and tabs inside it do not count
(`Url.cleaned`).  A text without a scheme stands for a part of a URL and takes the rest from a base
(`Url.readBeside`).

`Url.parse` reads a text on its own and `Url.join` reads it beside a base.  Both take a `Names`, to
which every host that is neither a number nor between brackets is handed.

Boundary: the reader says why a text is no URL with one of the faults of `Url.Fault`, and what it
passes over silently it does not report.
-/
import RestCase.Url.Basic

namespace RestCase.Url

/-- The text without blanks and controls at the ends, and without tabs and line breaks. -/
def cleaned (s : List Char) : List Char :=
  let outer (c : Char) : Bool := c.toNat ≤ 0x20
  let inner := ((s.dropWhile outer).reverse.dropWhile outer).reverse
  -- the ends are cut first, so a tab behind the last blank goes with it
  inner.filter fun c => !(c == '\t' || c == '\n' || c == '\r')

/-! ## Schemes -/

/-- A character of a scheme, the first one apart. -/
def isSchemeChar (c : Char) : Bool :=
  Chars.isLetter c || Chars.isDigit c || c == '+' || c == '-' || c == '.'

/-- The scheme at the front of a text and what follows its colon. -/
def splitScheme? (s : List Char) : Option (List Char × List Char) :=
  match s.head?.map Chars.isLetter, s.dropWhile isSchemeChar with
  | some true, ':' :: r => some (Chars.toLower (s.takeWhile isSchemeChar), r)
  | _, _ => none

/-! ## Paths -/

/-- The segment names a drive: a letter and a colon or a bar. -/
def isDrive : List Char → Bool
  | [c, ':'] => Chars.isLetter c
  | [c, '|'] => Chars.isLetter c
  | _ => false

/-- The segment names a drive with a colon. -/
def isPlainDrive : List Char → Bool
  | [c, ':'] => Chars.isLetter c
  | _ => false

/-- The path without its last segment. -/
def pop (segments : List (List Char)) : List (List Char) :=
  match segments.getLast? with
  | some s => if isDrive s then segments else segments.dropLast
  | none => []

/-- The segment means the same as one dot. -/
def isDot (s : List Char) : Bool :=
  [".", "%2e"].contains (String.ofList (Chars.toLower s))

/-- The segment means the same as two dots. -/
def isDotDot (s : List Char) : Bool :=
  ["..", ".%2e", "%2e.", "%2e%2e"].contains (String.ofList (Chars.toLower s))

/-- A path while it is read: the segments, and whether the host still counts. -/
structure PathDraft where
  segments : List (List Char)
  hostCounts : Bool

/-- Put a segment that a slash follows, or none, at the end of a path. -/
def PathDraft.add (kind : SchemeKind) (p : PathDraft) (segment : List Char) (slash : Bool) :
    PathDraft :=
  if isDotDot segment then
    let shorter := pop p.segments
    -- with nothing behind it the path ends in a slash, as that of a directory
    { p with segments := if slash then shorter else shorter ++ [[]] }
  else if isDot segment then
    { p with segments := if slash then p.segments else p.segments ++ [[]] }
  else if kind = .file ∧ p.segments = [] ∧ isDrive segment = true then
    -- a drive is written with a colon, and its file has no host
    ⟨[segment.take 1 ++ [':']], false⟩
  else { p with segments := p.segments ++ [segment] }

/-- The character ends a path. -/
def endsRoute (c : Char) : Bool := c == '?' || c == '#'

/-- The character separates two segments. -/
def isSlash (kind : SchemeKind) (c : Char) : Bool := c == '/' || (c == '\\' && kind.isSpecial)

/-- In the path of a file a drive is a segment of its own even where no slash follows it. -/
def afterDrive (kind : SchemeKind) (p : PathDraft) (segment : List Char) (c : Char) : Bool :=
  kind == .file && p.segments.isEmpty && isPlainDrive segment && !isSlash kind c && !endsRoute c

/-- Read a path; `segment` is what is read of the segment at hand, which `PathDraft.add` puts to
the others. -/
def readPath (kind : SchemeKind) (p : PathDraft) (segment : List Char) :
    List Char → PathDraft × List Char
  | [] => (p.add kind segment false, [])
  | c :: r =>
    if isSlash kind c then readPath kind (p.add kind segment true) [] r
    else if endsRoute c then (p.add kind segment false, c :: r)
    else if afterDrive kind p segment c then
      readPath kind { p with segments := [segment] } (encodeChar reservedInPath c) r
    else readPath kind p (segment ++ encodeChar reservedInPath c) r

/-- The path of a file has no empty segments at its front. -/
def trimmedFilePath (segments : List (List Char)) : List (List Char) :=
  match segments.dropWhile List.isEmpty with
  | [] => [[]]
  | l => l

/-- Read the path that follows other segments. -/
def readSegments (kind : SchemeKind) (before : List (List Char)) (s : List Char) :
    PathDraft × List Char :=
  let (p, rest) := readPath kind ⟨before, true⟩ [] s
  (if kind = .file then { p with segments := trimmedFilePath p.segments } else p, rest)

/-- Read the path that follows an authority. -/
def readPathStart (kind : SchemeKind) (s : List Char) : PathDraft × List Char :=
  match s with
  | c :: r =>
    if isSlash kind c then readSegments kind [] r
    else if kind = .plain ∧ endsRoute c = true then (⟨[], true⟩, c :: r)
    else readSegments kind [] (c :: r)
  | [] => if kind = .plain then (⟨[], true⟩, []) else readSegments kind [] []

/-! ## Queries and fragments -/

/-- Put the query and the fragment that a text holds into a URL. -/
def withRest (u : Url) (rest : List Char) : Url :=
  let reserved := if (kindOf u.scheme).isSpecial then reservedInSpecialQuery else reservedInQuery
  match rest with
  | '?' :: r =>
    { u with
      query := some (encode reserved (r.takeWhile (· != '#')))
      fragment := fragmentOf? (r.dropWhile (· != '#')) }
  | r => { u with query := none, fragment := fragmentOf? r }
where
  /-- The fragment that a text holds. -/
  fragmentOf? : List Char → Option (List Char)
    | '#' :: r => some (encode reservedInFragment r)
    | _ => none

/-! ## Authorities -/

/-- The character ends an authority. -/
def endsAuthority (kind : SchemeKind) (c : Char) : Bool := isSlash kind c || endsRoute c

/-- The user and the password that stand before the last `@` of an authority, and what comes
after it. -/
def splitUser (kind : SchemeKind) (s : List Char) :
    Except Fault (List Char × List Char × List Char) :=
  let authority := s.takeWhile fun c => !endsAuthority kind c
  if !authority.contains '@' then .ok ([], [], s)
  else
    -- a user may have an `@`, a host has none
    let host := (authority.reverse.takeWhile (· != '@')).reverse
    let info := authority.take (authority.length - host.length - 1)
    let rest := s.drop (info.length + 1)
    if info.isEmpty && (rest.head?.map (endsAuthority kind)).getD false then .error .emptyHost
    else
      let user := info.takeWhile (· != ':')
      let password := info.drop (user.length + 1)
      .ok (encode reservedInUserInfo user, encode reservedInUserInfo password, rest)

/-- The text of a host at the front of a text: up to a colon that stands outside brackets. -/
def takeHost (kind : SchemeKind) (inside : Bool) : List Char → List Char × List Char
  | [] => ([], [])
  | c :: r =>
    -- between brackets a colon is a part of the address
    if (c == ':' && !inside) || endsAuthority kind c then ([], c :: r)
    else
      let within := if c = '[' then true else if c = ']' then false else inside
      let (host, rest) := takeHost kind within r
      (c :: host, rest)

/-- The long address between brackets. -/
def bracketed (s : List Char) : Except Fault Host :=
  if s.getLast? != some ']' then .error .longAddress
  else match readLongAddress? (s.drop 1).dropLast with
    | some pieces => .ok (.longAddress pieces)
    | none => .error .longAddress

/-- The host of a URL with a special scheme: an address, or a name in ASCII as the mapping `Names`
writes it. -/
def specialHost [Names] (s : List Char) : Except Fault Host :=
  if s.head? == some '[' then bracketed s
  -- the name is decoded first, so that an encoded mark counts as the mark
  else match (decode? s).bind Names.toAscii? with
    | none => .error .domainName
    | some [] => .error .emptyHost
    | some name =>
      if endsInNumber name then
        match readShortAddress? name with
        | some n => .ok (.shortAddress n)
        | none => .error .shortAddress
      else .ok (.name name)

/-- Characters that no host has. -/
def forbiddenInHost (c : Char) : Bool :=
  ['\x00', '\t', '\n', '\r', ' ', '#', '/', ':', '<', '>', '?', '@', '[', '\\', ']', '^',
    '|'].contains c

/-- The host of a URL with any other scheme. -/
def plainHost (s : List Char) : Except Fault Host :=
  if s.head? == some '[' then bracketed s
  else if s.any forbiddenInHost then .error .hostCharacter
  else .ok (.name (encode reservedAnywhere s))

/-- The port that follows a colon. -/
def readPort (scheme : List Char) (s : List Char) : Except Fault (Option Nat × List Char) :=
  let (digits, rest) := Chars.takeDigits s
  let n := Chars.ofDigits digits
  let ends := match rest with
    | [] => true
    | c :: _ => c == '\\' || c == '/' || endsRoute c
  -- a port of no digits is none, and that of the scheme is not written
  if 65535 < n || !ends then .error .port
  else .ok (if digits.isEmpty || defaultPort? scheme == some n then none else some n, rest)

/-- The host that the text of a host stands for. -/
def readHost [Names] (kind : SchemeKind) (s : List Char) : Except Fault Host :=
  if kind.isSpecial then (if s.isEmpty then .error .emptyHost else specialHost s) else plainHost s

/-- The port between the text of a host and a path. -/
def readAfterHost (scheme hostText : List Char) :
    List Char → Except Fault (Option Nat × List Char)
  | ':' :: r => if hostText.isEmpty then .error .emptyHost else readPort scheme r
  | r => .ok (none, r)

/-- The URL that follows a scheme and two slashes. -/
def readAuthority [Names] (scheme : List Char) (s : List Char) : Except Fault Url := do
  let kind := kindOf scheme
  let (user, password, r) ← splitUser kind s
  let (hostText, r) := takeHost kind false r
  let host ← readHost kind hostText
  let (port, r) ← readAfterHost scheme hostText r
  if hostText.isEmpty && !(user.isEmpty && password.isEmpty) then .error .emptyHost
  else
    let (path, r) := readPathStart kind r
    .ok (withRest
      ⟨scheme, some ⟨user, password, host, port⟩, .segments path.segments, none, none⟩ r)

/-! ## Files -/

/-- The scheme of files. -/
def fileScheme : List Char := "file".toList

/-- A file with a host and a path. -/
def fileUrl (host : Host) (path : PathDraft) (rest : List Char) : Url :=
  withRest ⟨fileScheme, some ⟨[], [], if path.hostCounts then host else .name [], none⟩,
    .segments path.segments, none, none⟩ rest

/-- The file that follows two slashes. -/
def readFileHost [Names] (s : List Char) : Except Fault Url :=
  let hostText := s.takeWhile fun c => !endsAuthority .file c
  if hostText.isEmpty || isDrive hostText then
    let (path, rest) := readSegments .file [] s
    .ok (fileUrl (.name []) path rest)
  else do
    let host ← specialHost hostText
    let rest := s.drop hostText.length
    if host = .name "localhost".toList then
      let (path, rest) := readSegments .file [] rest
      return fileUrl (.name []) path rest
    else
      let (path, rest) := readPathStart .file rest
      return fileUrl host path rest

/-- The text begins with a segment that names a drive. -/
def startsWithDrive (s : List Char) : Bool :=
  isDrive (s.take 2) && ((s.drop 2).head?.map (endsAuthority .file)).getD true

/-- The segments of a URL. -/
def segments (u : Url) : List (List Char) :=
  match u.route with
  | .segments l => l
  | .piece _ => []

/-- The host of a URL. -/
def host (u : Url) : Host := (u.authority.map (·.host)).getD (.name [])

/-- The URL with another path. -/
def onRoute (u : Url) (path : PathDraft) (rest : List Char) : Url :=
  withRest { u with route := .segments path.segments } rest

/-- The file that a text stands for, perhaps next to another one. -/
def readFile [Names] (base : Option Url) (s : List Char) : Except Fault Url :=
  match s with
  | c :: r =>
    if isSlash .file c then
      (match r with
      | d :: q =>
        if isSlash .file d then readFileHost q else .ok (fromRoot r)
      | [] => .ok (fromRoot r))
    else beside (c :: r)
  | [] => beside []
where
  /-- The file at a path from the root, on the drive and the host of the base. -/
  fromRoot (r : List Char) : Url :=
    let first := ((base.map segments).getD []).head?.getD []
    let (before, host) :=
      if startsWithDrive r then ([], Host.name [])
      else if isPlainDrive first then ([first], .name [])
      else ([], (base.map host).getD (.name []))
    let (path, rest) := readSegments .file before r
    fileUrl host path rest
  /-- The file at a path from the place of the base. -/
  beside (s : List Char) : Except Fault Url :=
    match base, s with
    | some b, [] => .ok { b with fragment := none }
    | some b, '?' :: _ => .ok (withRest b s)
    | some b, '#' :: _ => .ok { b with fragment := (withRest b s).fragment }
    | some b, s =>
      if startsWithDrive s then
        let (path, rest) := readSegments .file [] s
        .ok (fileUrl (.name []) path rest)
      else
        let (path, rest) := readSegments .file (pop b.segments) s
        .ok (fileUrl b.host path rest)
    | none, s =>
      let (path, rest) := readSegments .file [] s
      .ok (fileUrl (.name []) path rest)

/-! ## URLs -/

/-- Slashes of either kind. -/
def eitherSlash (c : Char) : Bool := c == '/' || c == '\\'

/-- The URL that a text without a scheme stands for next to a base: a path, a query or a fragment
takes the place of the one there. -/
def readBeside [Names] (base : Url) (s : List Char) : Except Fault Url :=
  let kind := kindOf base.scheme
  match s with
  | [] => .ok { base with fragment := none }
  | '?' :: _ => .ok (withRest base s)
  | '#' :: _ => .ok { base with fragment := (withRest base s).fragment }
  | c :: r =>
    if eitherSlash c then
      (match r with
      | d :: q =>
        if eitherSlash d then
          readAuthority base.scheme (if c = '/' ∧ d = '/' then q else s.dropWhile eitherSlash)
        else
          let (path, rest) := readSegments kind [] r
          .ok (onRoute base path rest)
      | [] =>
        let (path, rest) := readSegments kind [] r
        .ok (onRoute base path rest))
    else
      let (path, rest) := readSegments kind (pop base.segments) s
      .ok (onRoute base path rest)

/-- The URL that follows a scheme and its colon. -/
def readAfterScheme [Names] (base : Option Url) (scheme : List Char) (s : List Char) :
    Except Fault Url :=
  match kindOf scheme with
  | .file => readFile (base.filter fun b => b.scheme = fileScheme) s
  | .special =>
    let slashes := (s.takeWhile eitherSlash).length
    match base with
    | some b =>
      -- the scheme of the base with no two slashes is as if it were not there
      if slashes < 2 ∧ b.scheme = scheme then readBeside b s
      else readAuthority scheme (s.drop slashes)
    | none => readAuthority scheme (s.drop slashes)
  | .plain =>
    match s with
    | '/' :: '/' :: r => readAuthority scheme r
    | '/' :: r =>
      let (path, rest) := readSegments .plain [] r
      .ok (withRest ⟨scheme, none, .segments path.segments, none, none⟩ rest)
    | s =>
      let piece := s.takeWhile fun c => !endsRoute c
      .ok (withRest ⟨scheme, none, .piece (encode reservedAnywhere piece), none, none⟩
        (s.drop piece.length))

/-- The URL that a text stands for, perhaps next to a base: by `readAfterScheme` where
`splitScheme?` finds a scheme, else by `readBeside`. -/
def readWith [Names] (base : Option Url) (text : String) : Except Fault Url :=
  let s := cleaned text.toList
  match splitScheme? s with
  | some (scheme, r) => readAfterScheme base scheme r
  | none =>
    match base with
    | none => .error .noBase
    | some b =>
      match b.route, s with
      -- where there are no segments only the fragment can be another one
      | .piece _, '#' :: _ => .ok { b with fragment := (withRest b s).fragment }
      | .piece _, _ => .error .baseOfOnePiece
      | .segments _, s => if b.scheme = fileScheme then readFile (some b) s else readBeside b s

/-- The URL that a text stands for: `readWith` without a base. -/
def parse [Names] (text : String) : Except Fault Url := readWith none text

/-- The URL that a text stands for next to this one: `readWith` with it as the base. -/
def join [Names] (base : Url) (text : String) : Except Fault Url := readWith (some base) text

/-- The URL as a directory: its path ends in a slash. -/
def asDirectory (u : Url) : Url :=
  match u.route with
  | .piece s => if s.getLast? = some '/' then u else { u with route := .piece (s ++ ['/']) }
  | .segments l =>
    if l.getLast? = some [] then u else { u with route := .segments (l ++ [[]]) }

end RestCase.Url
