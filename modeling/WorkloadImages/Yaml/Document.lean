import WorkloadImages.Yaml.Node
import WorkloadImages.Yaml.Scalar

/-!
# The values of YAML documents

The value of a document as JSON. An alias stands for a node of the document with a number: a named
node has as its number how many names were given before it, and an alias has the number that its
name was last given with. Two nodes can have one number when a name is given again; then the later
one counts.

## Main definitions

* `Linked`, `Linked.ofNode?`: a document with numbers in place of names
* `Document.value?`: the value of a document
* `Document.readAll?`: the values of all documents of a text
-/

namespace WorkloadImages.Yaml

/-- A node of a document whose names have been replaced by numbers. -/
inductive Linked where
  /-- A scalar, plain or not. -/
  | scalar (number : Option Nat) (tag : Option Tag) (plain : Bool) (text : List Char)
  /-- The node with a number. -/
  | aliasOf (number : Nat)
  | sequence (number : Option Nat) (tag : Option Tag) (items : List Linked)
  | mapping (number : Option Nat) (tag : Option Tag) (pairs : List (Linked × Linked))

instance : Inhabited Linked := ⟨.aliasOf 0⟩

namespace Linked

/-! ## Numbers for names -/

/-- The names given so far, with the number that each was last given with. -/
abbrev Names := List (List Char × Nat)

/-- The number of a node with a name, and the names after it. -/
def name (anchor : Option (List Char)) (names : Names) : Option Nat × Names :=
  match anchor with
  | none => (none, names)
  | some anchor => (some names.length, (anchor, names.length) :: names.filter (·.1 ≠ anchor))

mutual

/-- A node with numbers for names, and the names after it. -/
def link : Node → Names → Option (Linked × Names)
  | .scalar anchor tag plain text, names =>
    let (number, names) := name anchor names
    some (scalar number tag plain text, names)
  | .aliasOf target, names =>
    (names.find? (·.1 = target)).map fun (_, number) => (aliasOf number, names)
  | .sequence anchor tag items, names =>
    let (number, names) := name anchor names
    (linkItems items names).map fun (items, names) => (sequence number tag items, names)
  | .mapping anchor tag pairs, names =>
    let (number, names) := name anchor names
    (linkPairs pairs names).map fun (pairs, names) => (mapping number tag pairs, names)
termination_by structural node => node

/-- The items of a sequence with numbers for names, and the names after them. -/
def linkItems : List Node → Names → Option (List Linked × Names)
  | [], names => some ([], names)
  | item :: items, names =>
    match link item names with
    | none => none
    | some (item, names) =>
      (linkItems items names).map fun (items, names) => (item :: items, names)
termination_by structural items => items

/-- The keys and values of a mapping with numbers for names, and the names after them. -/
def linkPairs : List (Node × Node) → Names → Option (List (Linked × Linked) × Names)
  | [], names => some ([], names)
  | pair :: pairs, names =>
    match linkPair pair names with
    | none => none
    | some (pair, names) =>
      (linkPairs pairs names).map fun (pairs, names) => (pair :: pairs, names)
termination_by structural pairs => pairs

/-- A key and a value with numbers for names, and the names after them. -/
def linkPair : Node × Node → Names → Option ((Linked × Linked) × Names)
  | (key, value), names =>
    match link key names with
    | none => none
    | some (key, names) => (link value names).map fun (value, names) => ((key, value), names)
termination_by structural pair => pair

end

/-- A document with numbers for names; none when an alias has a name that was not given. -/
def ofNode? (node : Node) : Option Linked := (link node []).map (·.1)

/-! ## Views of a document -/

/-- A node with its number, if it has one. -/
def withNumber (number : Option Nat) (node : Linked) : List (Nat × Linked) :=
  match number with
  | some number => [(number, node)]
  | none => []

mutual

/-- The nodes with numbers in the order in which they begin. -/
def numbered : Linked → List (Nat × Linked)
  | scalar number tag plain text => withNumber number (scalar number tag plain text)
  | aliasOf _ => []
  | sequence number tag items =>
    withNumber number (sequence number tag items) ++ numberedItems items
  | mapping number tag pairs =>
    withNumber number (mapping number tag pairs) ++ numberedPairs pairs
termination_by structural node => node

/-- The nodes with numbers among items. -/
def numberedItems : List Linked → List (Nat × Linked)
  | [] => []
  | item :: items => numbered item ++ numberedItems items
termination_by structural items => items

/-- The nodes with numbers among keys and values. -/
def numberedPairs : List (Linked × Linked) → List (Nat × Linked)
  | [] => []
  | pair :: pairs => numberedPair pair ++ numberedPairs pairs
termination_by structural pairs => pairs

/-- The nodes with numbers in a key and a value. -/
def numberedPair : Linked × Linked → List (Nat × Linked)
  | (key, value) => numbered key ++ numbered value
termination_by structural pair => pair

end

mutual

/-- The size of a document: one for a scalar or alias, two for a container. -/
def size : Linked → Nat
  | scalar .. => 1
  | aliasOf _ => 1
  | sequence _ _ items => 2 + sizeItems items
  | mapping _ _ pairs => 2 + sizePairs pairs
termination_by structural node => node

/-- The size of items. -/
def sizeItems : List Linked → Nat
  | [] => 0
  | item :: items => size item + sizeItems items
termination_by structural items => items

/-- The size of keys and values. -/
def sizePairs : List (Linked × Linked) → Nat
  | [] => 0
  | pair :: pairs => sizePair pair + sizePairs pairs
termination_by structural pairs => pairs

/-- The size of a key and a value. -/
def sizePair : Linked × Linked → Nat
  | (key, value) => size key + size value
termination_by structural pair => pair

end

end Linked

namespace Document

/-! ## Scalars -/

/-- A tag of the core schema, by its last word. -/
def coreTag (word : String) : Tag := asciiBytes ("tag:yaml.org,2002:" ++ word).toList

/-- Whether a tag is a local one, whose name is in Unicode. -/
def isLocalTag : Tag → Bool
  | byte :: rest => byte = 0x21 && (ByteArray.mk rest.toArray).validateUTF8
  | [] => false

/-- Whether a tag begins like a local one. -/
def beginsLocal (tag : Tag) : Bool := tag.head? = some 0x21

/-- What a scalar stands for. A tag of the core schema says what its text has to be; a local tag
is refused. -/
def scalar? (tag : Option Tag) (plain : Bool) (text : List Char) : Option Scalar :=
  match tag with
  | none => some (if plain then .ofPlain text else .text text)
  | some tag =>
    if isLocalTag tag then none
    else if tag = coreTag "bool" then (Scalar.bool? text).map .bool
    else if tag = coreTag "int" then (Scalar.int? text).map .int
    else if tag = coreTag "float" then (Scalar.float? text).map .float
    else if tag = coreTag "null" then if Scalar.isNullWord text then some .null else none
    -- A tag that only looks local changes nothing for a plain scalar.
    else if beginsLocal tag && plain then some (.ofPlain text)
    else some (.text text)

/-! ## Values -/

/-- The greatest number of containers in one another. -/
def maxDepth : Nat := 128

/-- The greatest number of aliases that are followed, for one of size. -/
def jumpsPerSize : Nat := 100

/-- What is known while the value of a document is read: the nodes by number and the greatest
number of aliases to be followed. -/
structure Scope where
  /-- The nodes with numbers in the order in which they begin. -/
  nodes : List (Nat × Linked)
  /-- The greatest number of aliases to be followed. -/
  maxJumps : Nat

/-- Counts the aliases that have been followed. -/
abbrev Reading := StateT Nat Option

/-- The node that an alias stands for: the last one with its number. -/
def follow (scope : Scope) (number : Nat) : Reading Linked := do
  let jumps ← get
  -- A document whose aliases lead in a circle is stopped by the count.
  if scope.maxJumps ≤ jumps then failure
  set (jumps + 1)
  match scope.nodes.reverse.find? (·.1 = number) with
  | some (_, node) => return node
  | none => failure

/-- The text of a key. It is a scalar, whatever its tag, or an alias of one. -/
def key (scope : Scope) : Linked → Reading String
  | .scalar _ _ _ text => return String.ofList text
  | .aliasOf number => do
    match ← follow scope number with
    | .scalar _ _ _ text => return String.ofList text
    | _ => failure
  | _ => failure

/-- The value of a node in at most `depth` more containers; `fuel` bounds the containers and the
aliases in one another. The last of several values with one key counts. -/
def value (scope : Scope) : Nat → Nat → Linked → Reading Json
  | 0, _, _ => failure
  | fuel + 1, depth, node =>
    match node, depth with
    | .scalar _ tag plain text, _ =>
      match (scalar? tag plain text).bind Scalar.toJson? with
      | some value => return value
      | none => failure
    | .aliasOf number, _ => do value scope fuel depth (← follow scope number)
    | .sequence _ tag items, depth + 1 =>
      if tag.any isLocalTag then failure
      else return .arr (← items.mapM (value scope fuel depth))
    | .mapping _ tag pairs, depth + 1 =>
      if tag.any isLocalTag then failure
      else do
        let fields ← pairs.mapM fun (k, v) => return (← key scope k, ← value scope fuel depth v)
        return .obj (Fields.insertAll [] fields)
    | _, 0 => failure

/-- The value of a document, if it has one. -/
def value? (document : Node) : Option Json := do
  let root ← Linked.ofNode? document
  -- A document is allowed to grow by its aliases in proportion to its size only.
  let scope : Scope := ⟨root.numbered, jumpsPerSize * root.size⟩
  let (value, _) ← (value scope (2 * maxDepth + 3) maxDepth root).run 0
  return value

/-- The values of all documents of a text, if it is a stream of documents that have values. -/
def readAll? (text : List Char) : Option (List Json) := do
  let tokens ← Token.read? text
  let documents ← Node.ofTokens? tokens
  documents.mapM value?

end Document

end WorkloadImages.Yaml
