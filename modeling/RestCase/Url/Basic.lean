/-
# RestCase.Url.Basic — URLs

A `Url` has a scheme, perhaps an `Authority` (a host with a user and a port), a `Route`, and perhaps
a query and a fragment.  The route is a list of segments, or one piece of text for a URL such as
`mailto:x`, which cannot serve as a base.  The parts are kept as they are written, encoded where
need be, and `Url.chars` puts them together.
-/
import RestCase.Url.Address
import RestCase.Url.Domain
import RestCase.Url.Percent

namespace RestCase

/-- A host of a URL. -/
inductive Url.Host where
  | name (chars : List Char)
  | shortAddress (value : Nat)
  | longAddress (pieces : List Nat)
  deriving DecidableEq, Repr

/-- The authority of a URL. -/
structure Url.Authority where
  user : List Char
  password : List Char
  host : Url.Host
  port : Option Nat
  deriving DecidableEq, Repr

/-- The path of a URL. -/
inductive Url.Route where
  | piece (chars : List Char)
  | segments (list : List (List Char))
  deriving DecidableEq, Repr

/-- A URL. -/
structure Url where
  scheme : List Char
  authority : Option Url.Authority
  route : Url.Route
  query : Option (List Char)
  fragment : Option (List Char)
  deriving DecidableEq, Repr

namespace Url

/-! ## Schemes -/

/-- The port that a scheme stands for. -/
def defaultPort? (scheme : List Char) : Option Nat :=
  match String.ofList scheme with
  | "http" | "ws" => some 80
  | "https" | "wss" => some 443
  | "ftp" => some 21
  | _ => none

/-- Schemes are of three kinds: the one for files, the other special ones, and the rest. -/
inductive SchemeKind where
  | file | special | plain
  deriving DecidableEq, Repr

/-- The kind of a scheme. -/
def kindOf (scheme : List Char) : SchemeKind :=
  if scheme = "file".toList then .file
  else if (defaultPort? scheme).isSome then .special else .plain

/-- A backslash is a slash. -/
def SchemeKind.isSpecial (k : SchemeKind) : Bool := k != .plain

/-! ## Text -/

/-- A host as it is written. -/
def Host.chars : Host → List Char
  | name s => s
  | shortAddress n => shortAddressChars n
  | longAddress pieces => '[' :: (longAddressChars pieces ++ [']'])

/-- A user and a password, if there are any, as they are written. -/
def Authority.credentials (a : Authority) : List Char :=
  if a.user.isEmpty && a.password.isEmpty then []
  else if a.password.isEmpty then a.user ++ ['@']
  else a.user ++ ':' :: (a.password ++ ['@'])

/-- An authority as it is written. -/
def Authority.chars (a : Authority) : List Char :=
  a.credentials ++ a.host.chars ++
    match a.port with
    | some n => ':' :: Chars.digits n
    | none => []

/-- A path as it is written. -/
def Route.chars : Route → List Char
  | piece s => s
  | segments l => l.flatMap fun s => '/' :: s

/-- What stands between a scheme and a path: without an authority, a path must not look like one. -/
def beforeRoute : Option Authority → Route → List Char
  | some a, _ => '/' :: '/' :: a.chars
  -- the path would begin with two slashes
  | none, .segments ([] :: _ :: _) => ['/', '.']
  | none, _ => []

/-- A URL as it is written. -/
def chars (u : Url) : List Char :=
  u.scheme ++ ':' :: (beforeRoute u.authority u.route ++ u.route.chars ++
    (match u.query with
      | some q => '?' :: q
      | none => []) ++
    match u.fragment with
    | some f => '#' :: f
    | none => [])

/-- A URL as it is written, as a string: `Url.parse` reads it back. -/
def text (u : Url) : String := String.ofList u.chars

/-! ## Faults -/

/-- What keeps a text from being a URL. -/
inductive Fault where
  | emptyHost
  | domainName
  | port
  | shortAddress
  | longAddress
  | hostCharacter
  | noBase
  | baseOfOnePiece
  deriving DecidableEq, Repr

/-- The words for a fault. -/
def Fault.message : Fault → String
  | emptyHost => "empty host"
  | domainName => "invalid international domain name"
  | port => "invalid port number"
  | shortAddress => "invalid IPv4 address"
  | longAddress => "invalid IPv6 address"
  | hostCharacter => "invalid domain character"
  | noBase => "relative URL without a base"
  | baseOfOnePiece => "relative URL with a cannot-be-a-base base"

end Url

end RestCase
