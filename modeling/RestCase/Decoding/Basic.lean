/-
# RestCase.Decoding.Basic — taking document trees for what is expected of them

A decoder takes a `Node` for a value of some type or says what is wrong with it (`Decoding.Fault`).
Documents come in two dialects (`Decoding.Dialect`).  In the one of YAML tags around a value are
looked through (`Decoding.untaggedIn`), and null stands for an empty sequence or mapping; in the one
of JSON a record may also be written as an array of its fields.

`Decoding.record` reads a record entry by entry, so that of two faults the one that stands first is
found.  A `Decoding.Layout` gives the names of the fields, several for one field where it has
several, and says what becomes of an entry without a field.
-/
import RestCase.Binary64.Shortest
import RestCase.Chars.Quoted
import RestCase.Http.Method
import RestCase.Json.Basic
import RestCase.Node.Basic

namespace RestCase.Decoding

/-! ## Faults -/

/-- What is wrong with a document. -/
inductive Fault where
  /-- The text is no document at all. -/
  | noDocument
  | wrongKind (found expected : String)
  | outOfRange (found expected : String)
  | tooShort (count : Nat) (expected : String)
  | missing (field : String)
  | repeated (field : String)
  | repeatedKey (key : Node)
  | unknownVariant (name : String) (known : List String)
  | noVariant (choice : String)
  | taggedChoice
  | method (fault : Method.Unsupported)
  | timestamp (problem : String)
  | keyNotString
  | keyNotFinite

/-- Names between marks, as a message lists them. -/
def listed : List String → String
  | [] => ""
  | [x] => "\x60" ++ x ++ "\x60"
  | x :: r => "\x60" ++ x ++ "\x60, " ++ listed r

/-- How a message about a key that comes twice names the key. -/
def keyText : Node → String
  | .null => "with null key"
  | .bool b => "with key \x60" ++ (if b then "true" else "false") ++ "\x60"
  | .int n => "with key " ++ Text.ofInt n
  | .float x => "with key " ++ x.text
  | .string s => "with key " ++ Text.quoted s
  | _ => "in YAML map"

/-- The words for a fault. -/
def Fault.message : Fault → String
  | noDocument => "syntax"
  | wrongKind found expected => "invalid type: " ++ found ++ ", expected " ++ expected
  | outOfRange found expected => "invalid value: " ++ found ++ ", expected " ++ expected
  | tooShort count expected =>
    "invalid length " ++ Text.ofNat count ++ ", expected " ++ expected
  | missing field => "missing field \x60" ++ field ++ "\x60"
  | repeated field => "duplicate field \x60" ++ field ++ "\x60"
  | repeatedKey key => "duplicate entry " ++ keyText key
  | unknownVariant name known =>
    "unknown variant \x60" ++ name ++ "\x60, expected one of " ++ listed known
  | noVariant choice => "data did not match any variant of untagged enum " ++ choice
  | taggedChoice => "untagged and internally tagged enums do not support enum input"
  | method fault => fault.message
  | timestamp problem => problem
  | keyNotString => "key must be a string"
  | keyNotFinite => "float key must be finite"

/-- The answer of a decoder. -/
abbrev Decoded (α : Type) := Except Fault α

/-! ## Dialects -/

/-- The two dialects of documents: only in YAML tags are looked through (`untaggedIn`), only in
JSON a record may be an array. -/
inductive Dialect where
  | json | yaml
  deriving DecidableEq, Repr

/-- What a message calls a node. -/
def describe (d : Dialect) : Node → String
  | .null => if d = .json then "null" else "unit value"
  | .bool b => "boolean \x60" ++ (if b then "true" else "false") ++ "\x60"
  | .int n => "integer \x60" ++ Text.ofInt n ++ "\x60"
  | .float x =>
    "floating point \x60" ++ (if d = .json then x.text else x.positionalText) ++ "\x60"
  | .string s => "string " ++ Text.quoted s
  | .sequence _ => "sequence"
  | .mapping _ => "map"
  | .tagged .. => "enum"

/-- The node that a decoder looks at: without its tags in the dialect of YAML. -/
def untaggedIn (d : Dialect) (v : Node) : Node := if d = .yaml then v.untagged else v

@[simp] theorem untaggedIn_json (v : Node) : untaggedIn .json v = v := rfl

/-- The fault of a node that is not of the expected kind. -/
def wrong {α : Type} (d : Dialect) (v : Node) (expected : String) : Decoded α :=
  .error (.wrongKind (describe d v) expected)

/-! ## Scalars -/

/-- A text. -/
def text (d : Dialect) (v : Node) : Decoded String :=
  match untaggedIn d v with
  | .string s => .ok s
  | w => wrong d w "a string"

/-- A truth value. -/
def truth (d : Dialect) (v : Node) : Decoded Bool :=
  match untaggedIn d v with
  | .bool b => .ok b
  | w => wrong d w "a boolean"

/-- A kind of natural numbers: its name and its greatest value. -/
structure Word where
  name : String
  greatest : Nat

/-- Words of sixteen bits. -/
def word16 : Word := ⟨"u16", 0xFFFF⟩

/-- Words of thirty-two bits. -/
def word32 : Word := ⟨"u32", 0xFFFFFFFF⟩

/-- Words of sixty-four bits. -/
def word64 : Word := ⟨"u64", 0xFFFFFFFFFFFFFFFF⟩

/-- A natural number that fits a word. -/
def natural (word : Word) (d : Dialect) (v : Node) : Decoded Nat :=
  match untaggedIn d v with
  | .int n =>
    if 0 ≤ n ∧ n ≤ (word.greatest : Int) then .ok n.toNat
    else .error (.outOfRange (describe d (.int n)) word.name)
  | w => wrong d w word.name

/-- A value that may be null. -/
def optional {α : Type} (decode : Node → Decoded α) (v : Node) : Decoded (Option α) :=
  match v with
  | .null => .ok none
  | v => (decode v).map some

/-! ## Collections -/

/-- The items of a sequence. -/
def itemsOf (d : Dialect) (v : Node) : Decoded (List Node) :=
  match untaggedIn d v, d with
  | .sequence items, _ => .ok items
  | .null, .yaml => .ok []
  | w, _ => wrong d w "a sequence"

/-- A list. -/
def list {α : Type} (d : Dialect) (decode : Node → Decoded α) (v : Node) : Decoded (List α) :=
  (itemsOf d v).bind fun items => items.mapM decode

/-- The entries of a mapping. -/
def entriesOf (d : Dialect) (expected : String) (v : Node) : Decoded (List (Node × Node)) :=
  match untaggedIn d v, d with
  | .mapping entries, _ => .ok entries
  | .null, .yaml => .ok []
  | w, _ => wrong d w expected

/-- A table with texts as keys, by `Table.insert`; of entries with one key the last counts. -/
def table {α : Type} (d : Dialect) (decode : Node → Decoded α) (v : Node) : Decoded (Table α) := do
  let entries ← entriesOf d "a map" v
  let pairs ← entries.mapM fun e => do
    let key ← text d e.1
    let value ← decode e.2
    return (key, value)
  return Table.ofList pairs

/-! ## Records -/

/-- The layout of a record: what a message calls it, and its fields in order; a field marked
`true` can be left out where `readPositions` reads the record as an array. -/
structure Layout where
  title : String
  fields : List (String × Bool)

/-- The name of a field that a key gives. -/
def fieldName (d : Dialect) (key : Node) : Decoded String :=
  match untaggedIn d key with
  | .string s => .ok s
  | w => wrong d w "field identifier"

/-- Put the value of a field in its place, which has to be free: a field that comes twice is a
`Fault`. -/
def fill {α : Type} (field : String) (place : Option α) (value : Decoded α) :
    Decoded (Option α) :=
  -- a value that comes too late is not even decoded
  if place.isSome then .error (.repeated field) else value.map some

/-- A field that has to be there. -/
def required {α : Type} (field : String) : Option α → Decoded α
  | some x => .ok x
  | none => .error (.missing field)

/-- Read the fields of a record written as an array. -/
def readPositions {δ : Type} (layout : Layout) (add : δ → String → Node → Decoded δ) :
    Nat → List (String × Bool) → δ → List Node → Decoded δ
  | _, [], draft, [] => .ok draft
  -- items without a field are an error of the text, as no field is at fault
  | _, [], _, _ :: _ => .error .noDocument
  | position, (field, _) :: fields, draft, v :: r => do
    readPositions layout add (position + 1) fields (← add draft field v) r
  | position, (_, free) :: fields, draft, [] =>
    if free then readPositions layout add (position + 1) fields draft []
    else .error (.tooShort position
      (layout.title ++ " with " ++ Text.ofNat layout.fields.length ++ " elements"))

/-- Read the fields of a record into a draft, entry by entry as its `Layout` names them, so that
of two faults the first in the document is found. -/
def record {δ : Type} (d : Dialect) (layout : Layout) (empty : δ)
    (add : δ → String → Node → Decoded δ) (v : Node) : Decoded δ :=
  match untaggedIn d v, d with
  | .sequence items, .json => readPositions layout add 0 layout.fields empty items
  | w, _ => do
    let entries ← entriesOf d layout.title w
    entries.foldlM (fun draft e => do add draft (← fieldName d e.1) e.2) empty

/-! ## Names -/

/-- One of several values with a name. -/
def oneOf {α : Type} (d : Dialect) (known : List (String × α)) (v : Node) : Decoded α :=
  let named (s : String) : Decoded α :=
    match known.find? (·.1 == s) with
    | some k => .ok k.2
    | none => .error (.unknownVariant s (known.map (·.1)))
  match untaggedIn d v with
  | .string s => named s
  -- the name of a variant may also be the only key of a mapping
  | .mapping [(.string s, .null)] => named s
  | _ => .error .noDocument

end RestCase.Decoding
