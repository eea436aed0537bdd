/-
# RestCase.Decoding.Value — document trees and JSON

A JSON document becomes a tree as it is written (`Decoding.ofDocument`).  The other way there are
two readings: as a *value* (`Decoding.toValue`), in which mappings have texts as keys, and as the
text of a *payload* (`Decoding.payload`), in which the entries keep their order and scalar keys are
written as texts.

`Decoding.distinct` refuses a tree in which a key comes twice, at any depth.
-/
import RestCase.Decoding.Basic
import RestCase.Json.Render

namespace RestCase.Decoding

/-! ## From JSON -/

mutual
/-- The tree of a JSON document. -/
def ofDocument : Json → Node
  | .null => .null
  | .bool b => .bool b
  | .int n => .int n
  | .float x => .float (.finite x)
  | .string s => .string s
  | .array items => .sequence (ofItems items)
  | .object members => .mapping (ofMembers members)

/-- The trees of the items of an array. -/
def ofItems : List Json → List Node
  | [] => []
  | v :: r => ofDocument v :: ofItems r

/-- The trees of the members of an object. -/
def ofMembers : List (String × Json) → List (Node × Node)
  | [] => []
  | (k, v) :: r => (.string k, ofDocument v) :: ofMembers r
end

mutual
/-- The tree, if no key comes twice in a mapping of it, however deep. -/
def distinct : Node → Decoded Unit
  | .sequence items => distinctItems items
  | .mapping entries => distinctEntries [] entries
  | .tagged _ v => distinct v
  | _ => .ok ()

/-- No key comes twice in the mappings of items. -/
def distinctItems : List Node → Decoded Unit
  | [] => .ok ()
  | v :: r =>
    match distinct v with
    | .ok _ => distinctItems r
    | .error e => .error e

/-- No key of the entries is among those seen, nor do keys come twice within the values. -/
def distinctEntries (seen : List Node) : List (Node × Node) → Decoded Unit
  | [] => .ok ()
  | (k, v) :: r =>
    match distinct k with
    | .error e => .error e
    | .ok _ =>
      -- a repeated key is found before anything is found in its value
      if seen.any (Node.same k) then .error (.repeatedKey k)
      else match distinct v with
        | .ok _ => distinctEntries (k :: seen) r
        | .error e => .error e
end

/-! ## Values -/

/-- The key of a value's member; `first` tells whether it is the first of its mapping. -/
def valueKey (first : Bool) (key : Node) : Decoded String :=
  match key.untagged with
  | .string s => .ok s
  | w => wrong .yaml w (if first then "a string key" else "a string")

mutual
/-- The JSON value of a tree, its objects in the order of their keys (`Json.normalize`); a number
that is infinite or none is null. -/
def toValue : Node → Decoded Json
  | .null => .ok .null
  | .bool b => .ok (.bool b)
  | .int n => .ok (.int n)
  | .float (.finite x) => .ok (.float x)
  | .float _ => .ok .null
  | .string s => .ok (.string s)
  | .sequence items => (toItems items).map .array
  -- of members with one key the last counts, and they are put in order
  | .mapping entries => (toMembers true entries).map fun l => (Json.object l).normalize
  | .tagged .. => .error (.wrongKind "enum" "any valid JSON value")

/-- The JSON values of items. -/
def toItems : List Node → Decoded (List Json)
  | [] => .ok []
  | v :: r =>
    match toValue v with
    | .error e => .error e
    | .ok a => (toItems r).map (a :: ·)

/-- The members of an object. -/
def toMembers (first : Bool) : List (Node × Node) → Decoded (List (String × Json))
  | [] => .ok []
  | (k, v) :: r =>
    match valueKey first k with
    | .error e => .error e
    | .ok key =>
      match toValue v with
      | .error e => .error e
      | .ok a => (toMembers false r).map ((key, a) :: ·)
end

/-! ## Payloads -/

/-- The text of a key in a payload. -/
def payloadKey : Node → Decoded String
  | .bool b => .ok (if b then "true" else "false")
  | .int n => .ok (Text.ofInt n)
  | .float (.finite x) => .ok x.text
  | .float _ => .error .keyNotFinite
  | .string s => .ok s
  | _ => .error .keyNotString

mutual
/-- The JSON document of a payload, its members in the order of the entries, unlike `toValue`. -/
def toPayload : Node → Decoded Json
  | .null => .ok .null
  | .bool b => .ok (.bool b)
  | .int n => .ok (.int n)
  | .float (.finite x) => .ok (.float x)
  | .float _ => .ok .null
  | .string s => .ok (.string s)
  | .sequence items => (toPayloadItems items).map .array
  | .mapping entries => (toPayloadMembers entries).map .object
  | .tagged tag v =>
    match toPayload v with
    | .ok a => .ok (.object [("!" ++ tag, a)])
    | .error e => .error e

/-- The items of an array in a payload. -/
def toPayloadItems : List Node → Decoded (List Json)
  | [] => .ok []
  | v :: r =>
    match toPayload v with
    | .error e => .error e
    | .ok a => (toPayloadItems r).map (a :: ·)

/-- The members of an object in a payload. -/
def toPayloadMembers : List (Node × Node) → Decoded (List (String × Json))
  | [] => .ok []
  | (k, v) :: r =>
    match payloadKey k with
    | .error e => .error e
    | .ok key =>
      match toPayload v with
      | .error e => .error e
      | .ok a => (toPayloadMembers r).map ((key, a) :: ·)
end

/-- A payload: nothing for null, a text as it is, and anything else as compact JSON
(`toPayload`). -/
def payload (v : Node) : Decoded (Option String) :=
  match v with
  | .null => .ok none
  | .string s => .ok (some s)
  | v => (toPayload v).map fun a => some a.compact

end RestCase.Decoding
