/-
# RestCase.Yaml.Tree — the tree of a YAML document

Tokens are read into a tree as it is written (`Yaml.Written`), in which a node may carry an anchor
and another may refer to it by name.  Names are then turned into numbers and references into the
nodes they stand for (`Yaml.expand`); what is left is a `Yaml.Tree` of scalars, sequences and
mappings with their tags.

A name gets as its number the count of names that were known when it was last given.  A name given
again can so get the number that another name gets later, and then refers to the later node.
-/
import RestCase.Yaml.Token

namespace RestCase.Yaml

/-- A node as it is written; `ρ` is what anchors and references are known by: names at first,
numbers after `Written.number`. -/
inductive Written (ρ : Type) where
  | scalar (tag : Option String) (text : String) (plain : Bool)
  | sequence (tag : Option String) (items : List (Written ρ))
  | mapping (tag : Option String) (entries : List (Written ρ × Written ρ))
  | reference (name : ρ)
  | anchored (name : ρ) (node : Written ρ)

/-- A node of a document. -/
inductive Tree where
  | scalar (tag : Option String) (text : String) (plain : Bool)
  | sequence (tag : Option String) (items : List Tree)
  | mapping (tag : Option String) (entries : List (Tree × Tree))

namespace Written

/-- What stands where nothing is written. -/
def empty {ρ : Type} (tag : Option String) : Written ρ := scalar tag "" true

mutual
/-- How many marks a node takes to list: one for a scalar or a reference, two for a collection
beside those of its parts. -/
def size {ρ : Type} : Written ρ → Nat
  | scalar .. => 1
  | sequence _ items => sizeItems items + 2
  | mapping _ entries => sizeEntries entries + 2
  | reference _ => 1
  | anchored _ node => node.size

/-- The marks of the items of a sequence. -/
def sizeItems {ρ : Type} : List (Written ρ) → Nat
  | [] => 0
  | n :: r => n.size + sizeItems r

/-- The marks of the entries of a mapping. -/
def sizeEntries {ρ : Type} : List (Written ρ × Written ρ) → Nat
  | [] => 0
  | (k, v) :: r => k.size + v.size + sizeEntries r
end

end Written

/-! ## Reading tokens -/

/-- The handles of tags and what they stand for. -/
abbrev Handles := List (String × String)

/-- The handles that every document has. -/
def standardHandles : Handles := [("!", "!"), ("!!", "tag:yaml.org,2002:")]

/-- The full tag of a handle and a suffix. -/
def fullTag? (handles : Handles) (handle suffix : String) : Option String :=
  if handle.isEmpty then some suffix
  else (handles.find? (·.1 == handle)).map fun h => h.2 ++ suffix

/-- What may stand before a node: an anchor and a tag, in either order. -/
structure Properties where
  anchor : Option String
  tag : Option (String × String)

/-- The properties before a node. -/
def readProperties (tokens : List Token) : Properties × List Token :=
  match tokens with
  | .anchor a :: .tag h t :: r => (⟨some a, some (h, t)⟩, r)
  | .anchor a :: r => (⟨some a, none⟩, r)
  | .tag h t :: .anchor a :: r => (⟨some a, some (h, t)⟩, r)
  | .tag h t :: r => (⟨none, some (h, t)⟩, r)
  | _ => (⟨none, none⟩, tokens)

/-- The tag of a node in full; an unknown handle is refused. -/
def Properties.fullTag (p : Properties) (handles : Handles) : Option (Option String) :=
  match p.tag with
  | none => some none
  | some (h, t) => (fullTag? handles h t).map some

/-- The node with its anchor. -/
def Properties.attach (p : Properties) (node : Written String) : Written String :=
  match p.anchor with
  | some a => .anchored a node
  | none => node

/-- A node in a block ends where one of these tokens comes. -/
def endsEntry : List Token → Bool
  | .key :: _ | .value :: _ | .blockEnd :: _ => true
  | _ => false

/-- An item of a block sequence ends where one of these tokens comes. -/
def endsItem : List Token → Bool
  | .item :: _ | .blockEnd :: _ => true
  | _ => false

/-- The tokens after the separator that every entry between brackets but the first one needs. -/
def afterSeparator? (first : Bool) (tokens : List Token) : Option (List Token) :=
  if first then some tokens
  else match tokens with
    | .separator :: r => some r
    | _ => none

/-- Tokens in front of a value that is missing between brackets. -/
def endsPair (close : Token) : List Token → Bool
  | [] => true
  | t :: _ => t == .separator || t == close

mutual
/-- A node.  Outside brackets it may be a block; as part of a block mapping it may be a sequence
that is not indented. -/
def readNode (handles : Handles) (fuel : Nat) (block flat : Bool) (tokens : List Token) :
    Option (Written String × List Token) :=
  match fuel with
  | 0 => none
  | fuel + 1 =>
    match tokens with
    | .alias name :: r => some (.reference name, r)
    | _ => do
      let (p, tokens) := readProperties tokens
      let tag ← p.fullTag handles
      let (node, r) ← match tokens with
        | .item :: _ =>
          -- an item without a sequence around it begins one that is not indented
          (if flat then (readFlatItems handles fuel tokens).map fun l => (.sequence tag l.1, l.2)
            else bare p tag tokens)
        | .scalar text plain :: r =>
          -- this tag says no more than that there is one
          some (.scalar (if tag = some "!" then none else tag) text plain, r)
        | .openSequence :: r =>
          (readFlowItems handles fuel true r).map fun l => (.sequence tag l.1, l.2)
        | .openMapping :: r =>
          (readFlowEntries handles fuel true r).map fun l => (.mapping tag l.1, l.2)
        | .sequenceStart :: r =>
          (if block then (readItems handles fuel r).map fun l => (.sequence tag l.1, l.2)
            else bare p tag tokens)
        | .mappingStart :: r =>
          (if block then (readEntries handles fuel r).map fun l => (.mapping tag l.1, l.2)
            else bare p tag tokens)
        | _ => bare p tag tokens
      return (p.attach node, r)
where
  /-- Properties alone make an empty node; without them a node is missing. -/
  bare (p : Properties) (tag : Option String) (tokens : List Token) :
      Option (Written String × List Token) :=
    if p.anchor.isSome || p.tag.isSome then some (.empty tag, tokens) else none

/-- The items of an indented block sequence. -/
def readItems (handles : Handles) (fuel : Nat) (tokens : List Token) :
    Option (List (Written String) × List Token) :=
  match fuel with
  | 0 => none
  | fuel + 1 =>
    match tokens with
    | .blockEnd :: r => some ([], r)
    | .item :: r => do
      let (node, r) ←
        (if endsItem r then some (.empty none, r) else readNode handles fuel true false r)
      let (more, r) ← readItems handles fuel r
      return (node :: more, r)
    | _ => none

/-- The items of a block sequence that is not indented. -/
def readFlatItems (handles : Handles) (fuel : Nat) (tokens : List Token) :
    Option (List (Written String) × List Token) :=
  match fuel with
  | 0 => none
  | fuel + 1 =>
    match tokens with
    | .item :: r => do
      let (node, r) ←
        (if endsItem r || endsEntry r then some (.empty none, r)
          else readNode handles fuel true false r)
      let (more, r) ← readFlatItems handles fuel r
      return (node :: more, r)
    | _ => some ([], tokens)

/-- The entries of a block mapping. -/
def readEntries (handles : Handles) (fuel : Nat) (tokens : List Token) :
    Option (List (Written String × Written String) × List Token) :=
  match fuel with
  | 0 => none
  | fuel + 1 =>
    match tokens with
    | .blockEnd :: r => some ([], r)
    | .key :: r => do
      let (key, r) ←
        (if endsEntry r then some (.empty none, r) else readNode handles fuel true true r)
      let (value, r) ← match r with
        | .value :: r =>
          (if endsEntry r then some (.empty none, r) else readNode handles fuel true true r)
        | _ => some (.empty none, r)
      let (more, r) ← readEntries handles fuel r
      return ((key, value) :: more, r)
    | _ => none

/-- The items between square brackets; one with a key is a mapping of its own. -/
def readFlowItems (handles : Handles) (fuel : Nat) (first : Bool) (tokens : List Token) :
    Option (List (Written String) × List Token) :=
  match fuel with
  | 0 => none
  | fuel + 1 =>
    match tokens with
    | .closeSequence :: r => some ([], r)
    | _ => do
      let tokens ← afterSeparator? first tokens
      match tokens with
      | .closeSequence :: r => return ([], r)
      | .key :: r => do
        let (key, r) ← match r with
          | .value :: r | .separator :: r | .closeSequence :: r => some (.empty none, r)
          | r => readNode handles fuel false false r
        let (value, r) ← match r with
          | .value :: r =>
            (if endsPair .closeSequence r then some (.empty none, r)
              else readNode handles fuel false false r)
          | r => some (.empty none, r)
        let (more, r) ← readFlowItems handles fuel false r
        return (.mapping none [(key, value)] :: more, r)
      | _ => do
        let (node, r) ← readNode handles fuel false false tokens
        let (more, r) ← readFlowItems handles fuel false r
        return (node :: more, r)

/-- The entries between braces; a node without a key's mark has no value. -/
def readFlowEntries (handles : Handles) (fuel : Nat) (first : Bool) (tokens : List Token) :
    Option (List (Written String × Written String) × List Token) :=
  match fuel with
  | 0 => none
  | fuel + 1 =>
    match tokens with
    | .closeMapping :: r => some ([], r)
    | _ => do
      let tokens ← afterSeparator? first tokens
      match tokens with
      | .closeMapping :: r => return ([], r)
      | .key :: r => do
        let (key, r) ← match r with
          | .value :: _ | .separator :: _ | .closeMapping :: _ => some (.empty none, r)
          | r => readNode handles fuel false false r
        let (value, r) ← match r with
          | .value :: r =>
            (if endsPair .closeMapping r then some (.empty none, r)
              else readNode handles fuel false false r)
          | r => some (.empty none, r)
        let (more, r) ← readFlowEntries handles fuel false r
        return ((key, value) :: more, r)
      | _ => do
        let (node, r) ← readNode handles fuel false false tokens
        let (more, r) ← readFlowEntries handles fuel false r
        return ((node, .empty none) :: more, r)
end

/-! ## Documents -/

/-- The handles that directives give, in front of a document that they announce. -/
def readDirectives (version : Bool) (handles : Handles) :
    List Token → Option (Handles × List Token)
  | .version major minor :: r =>
    if version then none
    else if major = 1 ∧ (minor = 1 ∨ minor = 2) then readDirectives true handles r
    else none
  | .tagHandle handle head :: r =>
    if handles.any (·.1 == handle) then none
    else readDirectives version (handles ++ [(handle, head)]) r
  | .documentStart :: r => some (handles ++ standardHandles, r)
  | _ => none

/-- The tokens after the ends of a document. -/
def skipDocumentEnds : List Token → List Token
  | .documentEnd :: r => skipDocumentEnds r
  | r => r

/-- The one document of a token list; none where there is more than one. -/
def documentOf? (tokens : List Token) : Option (Written String) :=
  let fuel := 2 * tokens.length + 2
  let found : Option (Written String × List Token) := match tokens with
    -- an empty text is a document with nothing in it
    | [.streamEnd] => some (.empty none, tokens)
    | .version .. :: _ | .tagHandle .. :: _ | .documentStart :: _ => do
      let (handles, r) ← readDirectives false [] tokens
      match r with
      | .version .. :: _ | .tagHandle .. :: _ | .documentStart :: _ | .documentEnd :: _
      | .streamEnd :: _ => some (.empty none, r)
      | r => readNode handles fuel true false r
    | tokens => readNode standardHandles fuel true false tokens
  match found with
  | some (node, r) => if skipDocumentEnds r = [.streamEnd] then some node else none
  | none => none

/-! ## References -/

mutual
/-- Turn names into numbers; `known` holds the names so far, the last given first. -/
def Written.number : Written String → List (String × Nat) →
    Option (Written Nat × List (String × Nat))
  | .scalar tag text plain, known => some (.scalar tag text plain, known)
  | .sequence tag items, known =>
    (numberItems items known).map fun r => (.sequence tag r.1, r.2)
  | .mapping tag entries, known =>
    (numberEntries entries known).map fun r => (.mapping tag r.1, r.2)
  | .reference name, known =>
    (known.find? (·.1 == name)).map fun k => (.reference k.2, known)
  | .anchored name node, known =>
    -- a name that is given again adds none, so two nodes may have one number
    let count := (known.map (·.1)).eraseDups.length
    (Written.number node ((name, count) :: known)).map fun r => (.anchored count r.1, r.2)

/-- Turn the names in items into numbers. -/
def numberItems : List (Written String) → List (String × Nat) →
    Option (List (Written Nat) × List (String × Nat))
  | [], known => some ([], known)
  | n :: r, known =>
    (Written.number n known).bind fun a => (numberItems r a.2).map fun b => (a.1 :: b.1, b.2)

/-- Turn the names in entries into numbers. -/
def numberEntries : List (Written String × Written String) → List (String × Nat) →
    Option (List (Written Nat × Written Nat) × List (String × Nat))
  | [], known => some ([], known)
  | (k, v) :: r, known =>
    (Written.number k known).bind fun a => (Written.number v a.2).bind fun b =>
      (numberEntries r b.2).map fun c => ((a.1, b.1) :: c.1, c.2)
end

mutual
/-- The nodes with an anchor, in the order in which they begin. -/
def Written.definitions : Written Nat → List (Nat × Written Nat)
  | .sequence _ items => definitionsIn items
  | .mapping _ entries => definitionsInEntries entries
  | .anchored n node => (n, node) :: node.definitions
  | _ => []

/-- The nodes with an anchor in items. -/
def definitionsIn : List (Written Nat) → List (Nat × Written Nat)
  | [] => []
  | n :: r => n.definitions ++ definitionsIn r

/-- The nodes with an anchor in entries. -/
def definitionsInEntries : List (Written Nat × Written Nat) → List (Nat × Written Nat)
  | [] => []
  | (k, v) :: r => k.definitions ++ v.definitions ++ definitionsInEntries r
end

/-- The greatest nesting of collections. -/
def maxNesting : Nat := 128

/-- Every item of a sequence in turn, the budget handed on. -/
def expandItems (f : Written Nat → Nat → Option (Tree × Nat)) :
    List (Written Nat) → Nat → Option (List Tree × Nat)
  | [], budget => some ([], budget)
  | n :: r, budget =>
    (f n budget).bind fun a => (expandItems f r a.2).map fun b => (a.1 :: b.1, b.2)

/-- Every entry of a mapping in turn, its key first. -/
def expandEntries (f : Written Nat → Nat → Option (Tree × Nat)) :
    List (Written Nat × Written Nat) → Nat → Option (List (Tree × Tree) × Nat)
  | [], budget => some ([], budget)
  | (k, v) :: r, budget =>
    (f k budget).bind fun a => (f v a.2).bind fun b =>
      (expandEntries f r b.2).map fun c => ((a.1, b.1) :: c.1, c.2)

/-- Put the nodes in the place of references.  `depth` is how deeply collections may still nest
(`maxNesting`), `budget` how many references may still be followed. -/
def expand (definitions : List (Nat × Written Nat)) : Nat → Nat → Written Nat → Nat →
    Option (Tree × Nat)
  | 0, _, _, _ => none
  | fuel + 1, depth, node, budget =>
    match node with
    | .scalar tag text plain => some (.scalar tag text plain, budget)
    | .anchored _ node => expand definitions fuel depth node budget
    | .reference n =>
      if budget = 0 then none
      -- of two nodes with one number it is the one that begins last
      else (definitions.reverse.find? (·.1 == n)).bind fun d =>
        expand definitions fuel depth d.2 (budget - 1)
    | .sequence tag items =>
      if depth = 0 then none
      else (expandItems (expand definitions fuel (depth - 1)) items budget).map fun r =>
        (.sequence tag r.1, r.2)
    | .mapping tag entries =>
      if depth = 0 then none
      else (expandEntries (expand definitions fuel (depth - 1)) entries budget).map fun r =>
        (.mapping tag r.1, r.2)

/-- The tree of the one document of a text. -/
def tree? (text : String) : Option Tree := do
  let written ← documentOf? (← tokens? text)
  let (numbered, _) ← written.number []
  -- references may be followed a hundred times for each mark of the text
  let (tree, _) ← expand numbered.definitions (4 * maxNesting + 4) maxNesting numbered
    (100 * numbered.size)
  return tree

end RestCase.Yaml
