/-
# RestCase.Node.Basic — document trees

What a YAML document and a JSON document have in common before anything is expected of them: a
`Node` is a scalar, a sequence, a mapping with any nodes as keys, or a node with a tag of its own.
`Node.untagged` looks through tags, and `Node.repeatedKey?` finds a key that comes twice in one
mapping, numbers being compared as numbers (`Node.same`).
-/
import RestCase.Binary64.Basic

namespace RestCase

/-- A node of a document. -/
inductive Node where
  | null
  | bool (value : Bool)
  | int (value : Int)
  | float (value : Binary64)
  | string (value : String)
  | sequence (items : List Node)
  | mapping (entries : List (Node × Node))
  | tagged (tag : String) (value : Node)

namespace Node

instance : Inhabited Node := ⟨null⟩

/-- The node without the tags around it. -/
def untagged : Node → Node
  | tagged _ v => untagged v
  | v => v

/-! ## Sameness -/

/-- Two numbers are the same; a number that is none is the same as itself. -/
def sameFloat : Binary64 → Binary64 → Bool
  | .nan, .nan => true
  | a, b => a.compare? b == some .eq

mutual
/-- The two nodes are the same, the order of the entries of mappings apart (`allIn`). -/
def same : Node → Node → Bool
  | null, null => true
  | bool a, bool b => a == b
  | int a, int b => a == b
  | float a, float b => sameFloat a b
  | string a, string b => a == b
  | sequence a, sequence b => sameItems a b
  | mapping a, mapping b => a.length == b.length && allIn a b
  | tagged s a, tagged t b => s == t && same a b
  | _, _ => false

/-- The two lists are the same, item by item. -/
def sameItems : List Node → List Node → Bool
  | [], [] => true
  | a :: r, b :: s => same a b && sameItems r s
  | _, _ => false

/-- Every entry of the first list is the same as one of the second. -/
def allIn : List (Node × Node) → List (Node × Node) → Bool
  | [], _ => true
  | (k, v) :: r, l => l.any (fun e => same k e.1 && same v e.2) && allIn r l
end

/-- The first key that comes twice. -/
def repeatedKey? : List (Node × Node) → Option Node
  | [] => none
  | (k, _) :: r => go [k] r
where
  /-- The first key of the rest that is among those seen. -/
  go (seen : List Node) : List (Node × Node) → Option Node
    | [] => none
    | (k, _) :: r => if seen.any (same k) then some k else go (k :: seen) r

end Node

end RestCase
