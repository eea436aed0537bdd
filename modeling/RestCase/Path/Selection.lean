/-
# RestCase.Path.Selection — what a path leads to

A chain is followed step by step from a list with one entry, the document (`Path.followChain`).  An
entry is a part of the document, a number that counting has made, or nothing; a step that does not
apply to an entry leaves nothing in its place, and what is nothing at the end is left out
(`Path.select`).

`Path.evaluate` is what the rest of the library asks for: of a definite path the first selected
value, of any other the array of all of them.

Following a path can *break down* (`Path.Breakdown`): an index that is no natural number breaks down
every use of the path, a stride of zero breaks down when an array is sliced with it.
`RestCase.Proofs.Path.Breakdown` says exactly when.

A filter may match a text against a pattern, so all of this takes a `Pattern.Engine`.
-/
import RestCase.Json.Coercion
import RestCase.Path.Reader
import RestCase.Pattern.Reader

namespace RestCase.Path

/-- Why a path cannot be followed: a process that meets this breaks down (`Process.ofExcept`). -/
inductive Breakdown where
  | noIndex
  | noStride
  deriving DecidableEq, Repr

/-- An entry of the list that a chain is followed with. -/
inductive Found where
  | part (value : Json)
  | computed (value : Json)
  | nothing

namespace Found

/-- The part of the document that an entry is. -/
def part? : Found → Option Json
  | part v => some v
  | _ => none

/-- The value of an entry. -/
def value? : Found → Option Json
  | part v => some v
  | computed v => some v
  | nothing => none

end Found

/-! ## Steps over one value -/

/-- The parts, or nothing where there are none. -/
def orNothing (l : List Json) : List Found :=
  if l.isEmpty then [.nothing] else l.map .part

/-- The items of an array or the values of an object. -/
def children : Json → List Json
  | .array items => items
  | .object members => members.map (·.2)
  | _ => []

mutual
/-- The members with a name in a value and below it, outer ones first. -/
def membersBelow (name : String) : Json → List Json
  | .array items => membersInItems name items
  | .object members =>
    (Table.lookup name members).toList ++ membersInMembers name members
  | _ => []

/-- The members with a name below the items of an array. -/
def membersInItems (name : String) : List Json → List Json
  | [] => []
  | v :: r => membersBelow name v ++ membersInItems name r

/-- The members with a name below the values of an object. -/
def membersInMembers (name : String) : List (String × Json) → List Json
  | [] => []
  | (_, v) :: r => membersBelow name v ++ membersInMembers name r
end

mutual
/-- Everything below a value, outer parts first. -/
def allBelow : Json → List Json
  | .array items => allInItems items
  | .object members => allInMembers members
  | _ => []

/-- The items of an array with everything below them. -/
def allInItems : List Json → List Json
  | [] => []
  | v :: r => v :: (allBelow v ++ allInItems r)

/-- The values of an object with everything below them. -/
def allInMembers : List (String × Json) → List Json
  | [] => []
  | (_, v) :: r => v :: (allBelow v ++ allInMembers r)
end

/-- The place of a bound in an array: counted from the end when it is negative. -/
def placeOf? (bound : Int) (size : Nat) : Option Nat :=
  if bound < -(size : Int) ∨ (size : Int) < bound then none
  else if 0 ≤ bound then some bound.toNat else some (size - bound.natAbs)

/-- Every item whose place is a multiple of the stride. -/
def everyNth (stride : Nat) (l : List Json) : List Json :=
  l.zipIdx.filterMap fun (v, i) => if i % stride = 0 then some v else none

/-- The items of a slice, by `everyNth` from its start; a stop of zero means the end. -/
def sliceOf (start stop : Int) (stride : Nat) (items : List Json) :
    Except Breakdown (List Json) :=
  match placeOf? start items.length, placeOf? stop items.length with
  | some a, some b =>
    -- bounds outside of the array are found first, and then the stride does not matter
    if stride = 0 then .error .noStride
    else .ok (everyNth stride ((items.take (if b = 0 then items.length else b)).drop a))
  | _, _ => .ok []

/-! ## Relations -/

/-- The value as a count, for comparing sizes: what is negative counts as zero, and a fraction is
cut off. -/
def asCount? : Json → Option Nat
  | .int n => some n.toNat
  | .float x => some (if x.negative then 0 else x.magnitude / Finite64.twoTo 1074)
  | _ => none

/-- The size of a text in bytes, of an array or of an object. -/
def sizeOf? : Json → Option Nat
  | .string s => some s.utf8ByteSize
  | .array items => some items.length
  | .object members => some members.length
  | _ => none

/-- The number that a value is. -/
def number? : Json → Option Binary64
  | .int n => some (.ofInt n)
  | .float x => some (.finite x)
  | _ => none

/-- Both lists hold one number, the left one smaller. -/
def isLess (left right : List Json) : Bool :=
  match left.map number?, right.map number? with
  | [some a], [some b] => a.lt b
  | _, _ => false

/-- Some value of the list is the same. -/
def holdsSame (l : List Json) (v : Json) : Bool := l.any fun w => Json.same v w

/-- Some left value is among the items or members of the first right one. -/
def isAmong (left right : List Json) : Bool :=
  match right.head? with
  | some v => left.any (holdsSame (children v))
  | none => false

/-- Some left value, or item of one, is an item of the first right one; no left value counts too. -/
def hasAnyOf (left right : List Json) : Bool :=
  left.isEmpty || match right.head? with
    | some (.array items) => left.any fun
        | .array own => own.any (holdsSame items)
        | v => holdsSame items v
    | _ => false

/-- Every item of the first left value is an item of the first right one, or there is none. -/
def isSubset (left right : List Json) : Bool :=
  left.isEmpty || match left.head?, right.head? with
    | some (.array own), some (.array items) => !items.isEmpty && own.all (holdsSame items)
    | _, _ => false

/-- Every left value has the size that the first right one says. -/
def haveSize (left right : List Json) : Bool :=
  match right.head?.bind asCount? with
  | some n => left.all fun v => sizeOf? v == some n
  | none => false

variable [Pattern.Engine]

/-- Some left text has a match for the pattern that the first right value says
(`Pattern.ofChars?`, `Pattern.found`). -/
def havePattern (left right : List Json) : Bool :=
  match right.head? with
  | some (.string s) =>
    match Pattern.ofChars? s.toList with
    | some p => left.any fun
        | .string t => p.found t.toList
        | _ => false
    | none => false
  | _ => false

/-- Whether two lists of values stand in a relation. -/
def Relation.holds (relation : Relation) (left right : List Json) : Bool :=
  match relation with
  | eq => Json.sameItems left right
  | ne => !Json.sameItems left right
  | lt => isLess left right
  | le => isLess left right || Json.sameItems left right
  | gt => isLess right left
  | ge => isLess right left || Json.sameItems left right
  | matchesPattern => havePattern left right
  | isIn => isAmong left right
  | isNotIn => !isAmong left right
  | hasSize => haveSize left right
  | anyOf => hasAnyOf left right
  | noneOf => !hasAnyOf left right
  | subsetOf => isSubset left right

/-! ## Counting -/

/-- Whether counting at the end of a chain counts entries: after a step that can lead to several
places, unless one index follows it. -/
def countsEntries : Bool → List Step → Bool
  | counts, [] => counts
  | counts, s :: r =>
    countsEntries (match s with
      | .item _ => false
      | .items _ | .members _ | .slice .. | .filter _ | .wildcard => true
      | _ => counts) r

/-- Whether the count that ends a chain counts entries; a chain of two steps never does. -/
def endsInCount (chain : List Step) : Bool :=
  decide (2 < chain.length) && (match chain.getLast? with
    | some .length => true
    | _ => false) && countsEntries false chain

/-- The count of the entries that are something, or of the items of the first entry. -/
def countOf (entries : Bool) (l : List Found) : Found :=
  let values := l.filterMap Found.value?
  -- entries that are all nothing have no count, but an empty list of entries has
  if !l.isEmpty && values.isEmpty then .nothing
  else if entries then .computed (.int values.length)
  else match l.head?.bind Found.value? with
    | some (.array items) => .computed (.int items.length)
    | _ => .nothing

/-! ## Following a chain -/

/-- The values of which a condition holds: the items of an array, or a value itself. -/
def keep (holds : Json → Except Breakdown Bool) (v : Json) : Except Breakdown (List Json) :=
  match v with
  | .array items => items.filterM holds
  | v => [v].filterM holds

/-- Take every entry that is a part of the document on to others; the rest is nothing. -/
def onParts (f : Json → Except Breakdown (List Found)) (l : List Found) :
    Except Breakdown (List Found) :=
  (l.mapM fun x => match x with
    | Found.part v => f v
    | _ => .ok [.nothing]).map List.flatten

/-- The entries below an entry; below a computed number there are none. -/
def entriesBelow : Found → List Found
  | .part v => (allBelow v).map .part
  | .computed _ => []
  | .nothing => [.nothing]

mutual
/-- Follow a chain from a list of entries, step by step with `follow`; `entries` tells what a
count counts. -/
def followChain (document : Json) (entries : Bool) :
    List Step → List Found → Except Breakdown (List Found)
  | [], l => .ok l
  | s :: r, l =>
    match follow document entries s l with
    | .ok l' => followChain document entries r l'
    | .error e => .error e

/-- Follow one step. -/
def follow (document : Json) (entries : Bool) :
    Step → List Found → Except Breakdown (List Found)
  -- one entry for each that there was, even if that was nothing
  | .root, l => .ok (l.map fun _ => .part document)
  | .here chain, l =>
    (l.mapM fun x => followChain document (endsInCount chain) chain [x]).map List.flatten
  | .member name, l => onParts (fun v => .ok (orNothing (v.member? name).toList)) l
  | .wildcard, l => onParts (fun v => .ok (orNothing (children v))) l
  | .descent name, l => onParts (fun v => .ok (orNothing (membersBelow name v))) l
  | .descentAll, l => .ok (l.flatMap entriesBelow)
  | .length, l => .ok [countOf entries l]
  | .item numeral, l =>
    onParts (fun v => .ok (orNothing ((index? numeral).bind fun i => v.item? i).toList)) l
  | .items numerals, l =>
    onParts (fun v => .ok (numerals.flatMap fun n =>
      orNothing ((index? n).bind fun i => v.item? i).toList)) l
  | .members names, l => onParts (fun v =>
      .ok (names.flatMap fun name => orNothing (v.member? name).toList)) l
  | .slice start stop stride, l => onParts (fun v =>
      match v with
      | .array items => (sliceOf start stop stride items).map orNothing
      | _ => .ok [.nothing]) l
  | .filter condition, l =>
    onParts (fun v => (keep (satisfies document condition) v).map orNothing) l

/-- Whether a condition holds of a value.  Below a connective an array satisfies a condition when
one of its items does. -/
def satisfies (document : Json) : Filter → Json → Except Breakdown Bool
  | .exist a, v => (operandValues document a v).map fun l => !l.isEmpty
  | .compare a relation b, v => do
    let left ← operandValues document a v
    let right ← operandValues document b v
    return relation.holds left right
  -- the second condition is asked only where the first one does not decide
  | .and a b, v => do
    if (← keep (satisfies document a) v).isEmpty then return false
    else return !(← keep (satisfies document b) v).isEmpty
  | .or a b, v => do
    if !(← keep (satisfies document a) v).isEmpty then return true
    else return !(← keep (satisfies document b) v).isEmpty
  | .not a, v => do
    return (← keep (satisfies document a) v).isEmpty

/-- The values of an operand: a constant, or the parts of the document that a path leads to. -/
def operandValues (document : Json) : Operand → Json → Except Breakdown (List Json)
  | .constant c, _ => .ok [c]
  | .path chain, v =>
    -- what was counted is no part of the document, so a count has no value here
    (followChain document (endsInCount chain) chain [.part v]).map fun l => l.filterMap Found.part?
end

/-! ## Indices -/

mutual
/-- Every index in a step is a natural number (`index?`); a path with another one breaks down when
it is followed. -/
def indicesOk : Step → Bool
  | .item n => (index? n).isSome
  | .items l => l.all fun n => (index? n).isSome
  | .here chain => indicesOkIn chain
  | .filter f => indicesOkOf f
  | _ => true

/-- Every index in a chain is a natural number. -/
def indicesOkIn : List Step → Bool
  | [] => true
  | s :: r => indicesOk s && indicesOkIn r

/-- Every index in a condition is a natural number. -/
def indicesOkOf : Filter → Bool
  | .exist a => indicesOkAt a
  | .compare a _ b => indicesOkAt a && indicesOkAt b
  | .and a b => indicesOkOf a && indicesOkOf b
  | .or a b => indicesOkOf a && indicesOkOf b
  | .not a => indicesOkOf a

/-- Every index in an operand is a natural number. -/
def indicesOkAt : Operand → Bool
  | .constant _ => true
  | .path chain => indicesOkIn chain
end

/-! ## Selection -/

/-- Everything in a document that a path leads to, in the order in which `followChain` meets it. -/
def select (path : Path) (document : Json) : Except Breakdown (List Json) :=
  -- such an index breaks down even where no entry comes to it
  if indicesOkIn path.chain then
    (followChain document (endsInCount path.chain) path.chain [.part document]).map fun l =>
      l.filterMap Found.value?
  else .error .noIndex

/-- The value of a path: for a definite one (`Path.isDefinite`) the first of what `select` gives,
if anything; else the array of all of it. -/
def evaluate (path : Path) (document : Json) : Except Breakdown (Option Json) :=
  (path.select document).map fun found =>
    if path.definite then found.head? else some (.array found)

theorem followChain_append (document : Json) (entries : Bool) (a b : List Step) (l : List Found) :
    followChain document entries (a ++ b) l =
      (followChain document entries a l).bind (followChain document entries b) := by
  induction a generalizing l with
  | nil => simp [followChain, Except.bind]
  | cons s r ih =>
    simp only [List.cons_append, followChain]
    cases follow document entries s l with
    | ok l' => exact ih l'
    | error e => rfl

end RestCase.Path
