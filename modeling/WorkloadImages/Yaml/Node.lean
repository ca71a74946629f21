import WorkloadImages.Yaml.Token

/-!
# YAML nodes

A list of tokens as documents, each of them a tree of nodes. Where a node may be left out it is an
empty plain scalar.

## Main definitions

* `Node`: the trees
* `Node.ofTokens?`: the documents of a list of tokens
-/

namespace WorkloadImages.Yaml

/-- The tag of a node in full, in bytes. -/
abbrev Tag := List UInt8

/-- A node of a document. -/
inductive Node where
  /-- A scalar, plain or not. -/
  | scalar (anchor : Option (List Char)) (tag : Option Tag) (plain : Bool) (text : List Char)
  /-- The node with a name. -/
  | aliasOf (name : List Char)
  | sequence (anchor : Option (List Char)) (tag : Option Tag) (items : List Node)
  | mapping (anchor : Option (List Char)) (tag : Option Tag) (pairs : List (Node × Node))

namespace Node

/-- A node that is left out. -/
def absent : Node := scalar none none true []

/-! ## Tags -/

/-- What the handles of a document stand for. -/
abbrev Handles := List (List Char × List UInt8)

/-- The handles that every document has. -/
def defaultHandles : Handles :=
  [(['!'], asciiBytes ['!']), (['!', '!'], asciiBytes "tag:yaml.org,2002:".toList)]

/-- A tag in full; none when its handle stands for nothing. -/
def resolveTag (handles : Handles) (handle : List Char) (rest : List UInt8) : Option Tag :=
  if handle.isEmpty then some rest
  else (handles.find? (·.1 = handle)).map fun (_, start) => start ++ rest

/-- The anchor and the tag at the front of a list of tokens, in either order, and the rest. -/
def properties (handles : Handles) :
    List Token → Option (Option (List Char) × Option Tag × List Token)
  | .anchor name :: .tag handle bytes :: rest =>
    (resolveTag handles handle bytes).map fun tag => (some name, some tag, rest)
  | .tag handle bytes :: .anchor name :: rest =>
    (resolveTag handles handle bytes).map fun tag => (some name, some tag, rest)
  | .anchor name :: rest => some (some name, none, rest)
  | .tag handle bytes :: rest =>
    (resolveTag handles handle bytes).map fun tag => (none, some tag, rest)
  | rest => some (none, none, rest)

/-! ## Where nodes are left out -/

/-- Whether no item of a block sequence stands before the next token. -/
def endsItem : List Token → Bool
  | .blockEntry :: _ => true
  | .blockEnd :: _ => true
  | _ => false

/-- Whether no key or value of a block mapping stands before the next token. -/
def endsPart : List Token → Bool
  | .key :: _ => true
  | .value :: _ => true
  | .blockEnd :: _ => true
  | _ => false

/-- Whether no item of a sequence at the indentation of a mapping stands before the next token. -/
def endsIndentlessItem : List Token → Bool
  | .blockEntry :: _ => true
  | tokens => endsPart tokens

/-- Whether no key of a flow collection that ends with `close` stands before the next token. -/
def endsFlowKey (close : Token) : List Token → Bool
  | .value :: _ => true
  | .flowEntry :: _ => true
  | token :: _ => token = close
  | [] => false

/-- Whether no value of a flow collection that ends with `close` stands before the next token. -/
def endsFlowValue (close : Token) : List Token → Bool
  | .flowEntry :: _ => true
  | token :: _ => token = close
  | [] => false

/-- The rest after the mark between items, which the first item does not need. -/
def afterEntry (first : Bool) : List Token → Option (List Token)
  | .flowEntry :: rest => if first then some (.flowEntry :: rest) else some rest
  | tokens => if first then some tokens else none

/-! ## Nodes -/

mutual

/-- The node at the front of a list of tokens, and the rest. Block collections are nodes only in a
block, and items without a block of their own only as part of a mapping. -/
def read (handles : Handles) :
    Nat → (block indentless : Bool) → List Token → Option (Node × List Token)
  | 0, _, _, _ => none
  | _, _, _, .aliasOf name :: rest => some (.aliasOf name, rest)
  | fuel + 1, block, indentless, tokens =>
    match properties handles tokens with
    | none => none
    | some (anchor, tag, tokens) =>
      let asSequence := fun (items, rest) => (sequence anchor tag items, rest)
      let asMapping := fun (pairs, rest) => (mapping anchor tag pairs, rest)
      match block, indentless, tokens with
      | _, _, .scalar plain text :: rest => some (scalar anchor tag plain text, rest)
      | _, _, .flowSequence :: rest => (readFlowItems handles fuel true rest).map asSequence
      | _, _, .flowMapping :: rest => (readFlowPairs handles fuel true rest).map asMapping
      | true, _, .blockSequence :: rest => (readBlockItems handles fuel rest).map asSequence
      | true, _, .blockMapping :: rest => (readBlockPairs handles fuel rest).map asMapping
      | _, true, .blockEntry :: rest =>
        (readIndentlessItems handles fuel (.blockEntry :: rest)).map asSequence
      | _, _, tokens =>
        -- A name or a tag with no node after it belongs to an empty scalar.
        if anchor.isSome || tag.isSome then some (scalar anchor tag true [], tokens) else none

/-- The items of a block sequence up to its end, and what follows it. -/
def readBlockItems (handles : Handles) : Nat → List Token → Option (List Node × List Token)
  | 0, _ => none
  | fuel + 1, .blockEntry :: tokens => do
    let (item, tokens) ←
      if endsItem tokens then some (absent, tokens) else read handles fuel true false tokens
    let (items, tokens) ← readBlockItems handles fuel tokens
    return (item :: items, tokens)
  | _, .blockEnd :: tokens => some ([], tokens)
  | _, _ => none

/-- The items of a sequence that is no block of its own, and what follows the last one. -/
def readIndentlessItems (handles : Handles) : Nat → List Token → Option (List Node × List Token)
  | 0, _ => none
  | fuel + 1, .blockEntry :: tokens => do
    let (item, tokens) ←
      if endsIndentlessItem tokens then some (absent, tokens)
      else read handles fuel true false tokens
    let (items, tokens) ← readIndentlessItems handles fuel tokens
    return (item :: items, tokens)
  | _, tokens => some ([], tokens)

/-- The keys and values of a block mapping up to its end, and what follows it. -/
def readBlockPairs (handles : Handles) :
    Nat → List Token → Option (List (Node × Node) × List Token)
  | 0, _ => none
  | fuel + 1, .key :: tokens => do
    let (key, tokens) ← readBlockPart handles fuel tokens
    let (value, tokens) ←
      match tokens with
      | .value :: tokens => readBlockPart handles fuel tokens
      | tokens => some (absent, tokens)
    let (pairs, tokens) ← readBlockPairs handles fuel tokens
    return ((key, value) :: pairs, tokens)
  | _, .blockEnd :: tokens => some ([], tokens)
  | _, _ => none

/-- The key or the value of a block mapping, which may be left out, and what follows it. -/
def readBlockPart (handles : Handles) : Nat → List Token → Option (Node × List Token)
  | 0, _ => none
  | fuel + 1, tokens =>
    if endsPart tokens then some (absent, tokens) else read handles fuel true true tokens

/-- The items of a flow sequence up to its end, and what follows it. An item may be a mapping of
one key and value; when its key is left out the token in its place is passed over. -/
def readFlowItems (handles : Handles) :
    Nat → Bool → List Token → Option (List Node × List Token)
  | 0, _, _ => none
  | _, _, .flowSequenceEnd :: tokens => some ([], tokens)
  | fuel + 1, first, tokens => do
    match ← afterEntry first tokens with
    | .key :: tokens =>
      let (key, tokens) ←
        if endsFlowKey .flowSequenceEnd tokens then some (absent, tokens.drop 1)
        else read handles fuel false false tokens
      let (value, tokens) ← readFlowValue handles fuel .flowSequenceEnd tokens
      let (items, tokens) ← readFlowItems handles fuel false tokens
      return (mapping none none [(key, value)] :: items, tokens)
    | .flowSequenceEnd :: tokens => some ([], tokens)
    | tokens =>
      let (item, tokens) ← read handles fuel false false tokens
      let (items, tokens) ← readFlowItems handles fuel false tokens
      return (item :: items, tokens)

/-- The keys and values of a flow mapping up to its end, and what follows it. -/
def readFlowPairs (handles : Handles) :
    Nat → Bool → List Token → Option (List (Node × Node) × List Token)
  | 0, _, _ => none
  | _, _, .flowMappingEnd :: tokens => some ([], tokens)
  | fuel + 1, first, tokens => do
    match ← afterEntry first tokens with
    | .key :: tokens =>
      let (key, tokens) ←
        if endsFlowKey .flowMappingEnd tokens then some (absent, tokens)
        else read handles fuel false false tokens
      let (value, tokens) ← readFlowValue handles fuel .flowMappingEnd tokens
      let (pairs, tokens) ← readFlowPairs handles fuel false tokens
      return ((key, value) :: pairs, tokens)
    | .flowMappingEnd :: tokens => some ([], tokens)
    | tokens =>
      let (key, tokens) ← read handles fuel false false tokens
      let (pairs, tokens) ← readFlowPairs handles fuel false tokens
      return ((key, absent) :: pairs, tokens)

/-- The value of a key in a flow collection, which may be left out, and what follows it. -/
def readFlowValue (handles : Handles) :
    Nat → Token → List Token → Option (Node × List Token)
  | 0, _, _ => none
  | fuel + 1, close, .value :: tokens =>
    if endsFlowValue close tokens then some (absent, tokens)
    else read handles fuel false false tokens
  | _, _, tokens => some (absent, tokens)

end

/-! ## Documents -/

/-- Whether a version is one of those known. -/
def isKnownVersion (major minor : Nat) : Bool := major = 1 && (minor = 1 || minor = 2)

/-- The handles of the directives at the front of a list of tokens, and the rest. No more than one
version may be given, and a handle only once. -/
def readDirectives : Bool → Handles → List Token → Option (Handles × List Token)
  | versioned, handles, .version major minor :: rest =>
    if versioned || !isKnownVersion major minor then none else readDirectives true handles rest
  | versioned, handles, .handle name start :: rest =>
    if handles.any (·.1 = name) then none
    else readDirectives versioned (handles ++ [(name, start)]) rest
  | _, handles, tokens => some (handles ++ defaultHandles, tokens)

/-- Whether a document has no node before the next token. -/
def endsDocument : List Token → Bool
  | [] => true
  | .version .. :: _ => true
  | .handle .. :: _ => true
  | .documentStart :: _ => true
  | .documentEnd :: _ => true
  | _ => false

/-- Whether the first document needs no start mark before the next token. -/
def beginsBare : List Token → Bool
  | .documentEnd :: _ => true
  | tokens => !endsDocument tokens

/-- The document at the front of a list of tokens, and what follows its end mark. A start mark may
be missing only before the first document. -/
def readDocument (fuel : Nat) (first : Bool) (tokens : List Token) :
    Option (Node × List Token) := do
  let (document, tokens) ←
    if first && beginsBare tokens then read defaultHandles fuel true false tokens
    else do
      let (handles, tokens) ← readDirectives false [] tokens
      match tokens with
      | .documentStart :: tokens =>
        if endsDocument tokens then some (absent, tokens)
        else read handles fuel true false tokens
      | _ => none
  match tokens with
  | .documentEnd :: tokens => return (document, tokens)
  | tokens => return (document, tokens)

/-- The documents of a list of tokens; `fuel` bounds their number, and what is read of each. -/
def readDocuments : Nat → Bool → List Token → Option (List Node)
  | 0, _, _ => none
  | fuel + 1, first, tokens =>
    -- Further end marks between documents are passed over.
    let tokens := if first then tokens else tokens.dropWhile (· = .documentEnd)
    if tokens.isEmpty then some []
    else do
      let (document, tokens) ← readDocument fuel first tokens
      let documents ← readDocuments fuel false tokens
      return document :: documents

/-- The documents of a list of tokens, if it is a stream of documents. No more than four calls are
made in one another for a token, and a document has a token at least. -/
def ofTokens? (tokens : List Token) : Option (List Node) :=
  readDocuments (5 * tokens.length + 5) true tokens

end Node

end WorkloadImages.Yaml
