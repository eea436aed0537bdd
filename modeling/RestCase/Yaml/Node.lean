/-
# RestCase.Yaml.Node — YAML documents as document trees

A plain scalar is null, a truth value, an integer, a number or a text by what it looks like
(`Yaml.plainNode?`); a tag of the core schema asks for one of these, and any other full tag makes a
text.  A tag of the document's own stays with its node.

`Yaml.node?` goes from the text to the tree.  Boundary: an integer beyond 64 bits that still fits
128 is refused (`Whole.tooWide`), and with it the document.
-/
import RestCase.Binary64.Reading
import RestCase.Node.Basic
import RestCase.Yaml.Tree

namespace RestCase.Yaml

/-! ## What scalars look like -/

/-- The texts for null. -/
def isNullWord (s : String) : Bool := ["null", "Null", "NULL", "~"].contains s

/-- The truth value of a text. -/
def boolWord? (s : String) : Option Bool :=
  if ["true", "True", "TRUE"].contains s then some true
  else if ["false", "False", "FALSE"].contains s then some false
  else none

/-- Digits with a leading zero, which are no number. -/
def isZeroLed (s : List Char) : Bool :=
  let unsigned := match s with
    | '-' :: r | '+' :: r => r
    | _ => s
  match unsigned with
  | '0' :: c :: r => (c :: r).all Chars.isDigit
  | _ => false

/-- The base that the first two characters of a numeral say, and what follows them. -/
def basePrefix? : List Char → Option (Nat × List Char)
  | '0' :: 'x' :: r => some (16, r)
  | '0' :: 'o' :: r => some (8, r)
  | '0' :: 'b' :: r => some (2, r)
  | _ => none

/-- The natural number that a text denotes in the base it says, or in base ten. -/
def natural? (s : List Char) : Option Nat :=
  match (basePrefix? s).bind fun p => Chars.ofRadix? p.1 p.2 with
  | some n => some n
  | none => if isZeroLed s then none else Chars.ofRadix? 10 s

/-- The integer that a text denotes. -/
def integer? : List Char → Option Int
  | '-' :: r => (natural? r).map fun n => -(n : Int)
  | '+' :: r => (natural? r).map Int.ofNat
  | s => (natural? s).map Int.ofNat

/-- What an integer text amounts to: a value that fits a word, one that fits only two words and is
refused, or none. -/
inductive Whole where
  | value (n : Int)
  | tooWide
  | none
  deriving DecidableEq, Repr

/-- How an integer text is taken. -/
def wholeOf (s : List Char) : Whole :=
  match integer? s with
  | Option.none => .none
  | some n =>
    if -0x8000000000000000 ≤ n ∧ n < 0x10000000000000000 then .value n
    else if -0x80000000000000000000000000000000 ≤ n ∧ n < 0x100000000000000000000000000000000 then
      .tooWide
    else .none

/-- The number that a text denotes: finite, or one of the words for the others. -/
def number? (s : List Char) : Option Binary64 :=
  let unsigned := match s with
    | '+' :: r => r
    | _ => s
  let text := String.ofList s
  if s.head? = some '+' ∧ (unsigned.head? = some '+' ∨ unsigned.head? = some '-') then none
  else if [".inf", ".Inf", ".INF"].contains (String.ofList unsigned) then some (.infinite false)
  else if ["-.inf", "-.Inf", "-.INF"].contains text then some (.infinite true)
  else if [".nan", ".NaN", ".NAN"].contains text then some .nan
  else match Binary64.ofChars? unsigned with
    | some (.finite x) => some (.finite x)
    | _ => none

/-- The node of a plain scalar, by `isNullWord`, `boolWord?`, `wholeOf` and `number?` in turn; an
integer of more than one word is refused. -/
def plainNode? (s : String) : Option Node :=
  if s.isEmpty || isNullWord s then some .null
  else match boolWord? s with
    | some b => some (.bool b)
    | none =>
      match wholeOf s.toList with
      | .value n => some (.int n)
      | .tooWide => none
      | .none =>
        if isZeroLed s.toList then some (.string s)
        else match number? s.toList with
          | some x => some (.float x)
          | none => some (.string s)

/-! ## Tags -/

/-- The full form of a tag of the core schema. -/
def coreTag (name : String) : String := "tag:yaml.org,2002:" ++ name

/-- The document's own tag in a tag; one without a name is refused. -/
def ownTag? (tag : Option String) : Option (Option String) :=
  match tag.map String.toList with
  | some ['!'] => none
  | some ('!' :: r) => some (some (String.ofList r))
  | _ => some none

/-- The node of a scalar; `inTag` tells that its tag was already taken. -/
def scalarNode? (inTag : Bool) (tag : Option String) (text : String) (plain : Bool) :
    Option Node :=
  match inTag, tag with
  | false, some t =>
    if t = coreTag "bool" then (boolWord? text).map .bool
    else if t = coreTag "int" then
      match wholeOf text.toList with
      | .value n => some (.int n)
      | _ => none
    else if t = coreTag "float" then (number? text.toList).map .float
    else if t = coreTag "null" then if isNullWord text then some .null else none
    else some (.string text)
  | _, _ => if plain then plainNode? text else some (.string text)

/-- The mapping of entries; a key may not come twice. -/
def mappingNode? (entries : List (Node × Node)) : Option Node :=
  if (Node.repeatedKey? entries).isSome then none else some (.mapping entries)

mutual
/-- The node of a tree. -/
def nodeOf? : Tree → Option Node
  | .scalar tag text plain =>
    match ownTag? tag with
    | none => none
    | some none => scalarNode? false tag text plain
    | some (some t) => (scalarNode? true tag text plain).map (.tagged t)
  | .sequence tag items =>
    match ownTag? tag, nodesOf? items with
    | some t, some l => some (withTag t (.sequence l))
    | _, _ => none
  | .mapping tag entries =>
    match ownTag? tag, (entriesOf? entries).bind mappingNode? with
    | some t, some m => some (withTag t m)
    | _, _ => none
where
  /-- The node with a tag, if there is one. -/
  withTag (tag : Option String) (node : Node) : Node :=
    match tag with
    | some t => .tagged t node
    | none => node

/-- The nodes of items. -/
def nodesOf? : List Tree → Option (List Node)
  | [] => some []
  | t :: r => (nodeOf? t).bind fun n => (nodesOf? r).map (n :: ·)

/-- The nodes of entries. -/
def entriesOf? : List (Tree × Tree) → Option (List (Node × Node))
  | [] => some []
  | (k, v) :: r => (nodeOf? k).bind fun a => (nodeOf? v).bind fun b =>
      (entriesOf? r).map ((a, b) :: ·)
end

/-- The document tree of a text: `tree?`, and then `nodeOf?`. -/
def node? (text : String) : Option Node := (tree? text).bind nodeOf?

end RestCase.Yaml
