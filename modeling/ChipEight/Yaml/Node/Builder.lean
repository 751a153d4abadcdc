import ChipEight.Yaml.Node

/-!
# Nodes from tokens

The tokens of a document in the order that makes a node. An error among the tokens counts only once they are
used up.
-/

namespace ChipEight.Yaml

structure Builder where
  tokens : List Token
  /-- What ends the tokens, unless it is the end of the text. -/
  error : Option Error := none
  /-- What tag handles stand for. -/
  handles : List (String × String) := []
  /-- Named nodes, newest first; those that are still being read stand without a node. -/
  anchors : List (String × Option Node) := []

abbrev Build := StateT Builder (Except Error)

namespace Build

/-- The next token; nothing at the end of the text. -/
def peek : Build (Option Token) := do
  let p ← get
  match p.tokens, p.error with
  | t :: _, _ => return some t
  | [], some e => throw e
  | [], none => return none

def skip : Build Unit := modify fun p => { p with tokens := p.tokens.drop 1 }

/-! ## Directives -/

def defaultHandles : List (String × String) := [("!", "!"), ("!!", commonTags)]

def supportsVersion (major minor : Nat) : Bool := major = 1 && (minor = 1 || minor = 2)

/-- The directives before a document. Neither the version nor a handle may be declared twice. -/
def directives : Nat → (versioned : Bool) → List (String × String) → Build Unit
  | 0, _, _ => throw .grammar
  | n + 1, versioned, handles => do
    match ← peek with
    | some (.version major minor) =>
        if versioned || !supportsVersion major minor then throw .grammar
        skip
        directives n true handles
    | some (.handle name text) =>
        if handles.any (·.1 = name) then throw .grammar
        skip
        directives n versioned (handles ++ [(name, text)])
    | _ => modify fun p => { p with handles := handles ++ defaultHandles }

/-! ## Properties of nodes -/

structure Properties where
  anchor : Option String := none
  /-- Handle and suffix. -/
  tag : Option (String × String) := none

/-- An anchor and a tag, in either order. -/
def properties : Build Properties := do
  match ← peek with
  | some (.anchor name) =>
      skip
      match ← peek with
      | some (.tag handle suffix) => skip; return { anchor := some name, tag := some (handle, suffix) }
      | _ => return { anchor := some name }
  | some (.tag handle suffix) =>
      skip
      match ← peek with
      | some (.anchor name) => skip; return { anchor := some name, tag := some (handle, suffix) }
      | _ => return { tag := some (handle, suffix) }
  | _ => return {}

/-- The uri of a tag. -/
def uri (tag : Option (String × String)) : Build (Option String) := do
  match tag with
  | none => return none
  | some ("", suffix) => return some suffix
  | some (handle, suffix) =>
      match (← get).handles.find? (·.1 = handle) with
      | some (_, text) => return some (text ++ suffix)
      | none => throw .grammar

/-- An exclamation mark alone leaves the tag to the form of the node. -/
def tagOf (uri : Option String) (untagged : Tag) : Tag :=
  match uri with
  | none => untagged
  | some "!" => untagged
  | some u => .ofUri u

def scalarNode (uri : Option String) (plain : Bool) (s : String) : Node :=
  .scalar (tagOf uri (if plain || uri = some "!" then .ofPlain s else .text)) s

/-- What properties without a node stand for. -/
def emptyNode (uri : Option String) : Node := .scalar (tagOf uri (if uri = none then .null else .text)) ""

/-! ## Anchors -/

def setAnchor (name : String) (node : Option Node) : Build Unit :=
  modify fun p => { p with anchors := (name, node) :: p.anchors }

/-- Reads a node that is named. No name may be given twice. -/
def named (anchor : Option String) (read : Build Node) : Build Node := do
  match anchor with
  | none => read
  | some name =>
      if (← get).anchors.any (·.1 = name) then throw .reference
      setAnchor name none
      let node ← read
      setAnchor name (some node)
      return node

def aliased (name : String) : Build Node := do
  match (← get).anchors.find? (·.1 = name) with
  | some (_, node) => return node.getD .loop
  | none => throw .reference

/-! ## Nodes -/

def endsBlockItem : Option Token → Bool
  | some .blockEntry => true
  | some .blockEnd => true
  | _ => false

def endsBlockKey : Option Token → Bool
  | some .key => true
  | some .value => true
  | some .blockEnd => true
  | _ => false

def endsFlowItem (last : Token) (t : Option Token) : Bool := t = some .flowEntry || t = some last

def endsFlowKey (last : Token) (t : Option Token) : Bool := t = some .value || endsFlowItem last t

mutual

/-- A node. Where an `indentless` one is allowed a sequence may begin without being indented. -/
def node : Nat → (block indentless : Bool) → Build Node
  | 0, _, _ => throw .grammar
  | n + 1, block, indentless => do
    if let some (.reference name) ← peek then
      skip
      return ← aliased name
    let given ← properties
    let uri ← uri given.tag
    match ← peek, block with
    | some .blockEntry, _ =>
        if indentless then named given.anchor (.sequence (tagOf uri .list) <$> indentlessItems n [])
        else unwritten given uri
    | some (.scalar plain s), _ => skip; named given.anchor (pure (scalarNode uri plain s))
    | some .flowSequence, _ =>
        skip; named given.anchor (.sequence (tagOf uri .list) <$> flowItems n true [])
    | some .flowMapping, _ =>
        skip; named given.anchor (.mapping (tagOf uri .map) <$> flowEntries n true [])
    | some .blockSequence, true =>
        skip; named given.anchor (.sequence (tagOf uri .list) <$> blockItems n [])
    | some .blockMapping, true =>
        skip; named given.anchor (.mapping (tagOf uri .map) <$> blockEntries n [])
    | _, _ => unwritten given uri

/-- Properties may stand alone, but something has to be written. -/
def unwritten (given : Properties) (uri : Option String) : Build Node :=
  if given.anchor.isNone && uri.isNone then throw .grammar
  else named given.anchor (pure (emptyNode uri))

/-- A node, unless the next token shows that nothing is written. -/
def nodeOrEmpty : Nat → (block : Bool) → (ended : Option Token → Bool) → Build Node
  | 0, _, _ => throw .grammar
  | n + 1, block, ended => do
    if ended (← peek) then return .empty else node n block block

def blockItems : Nat → List Node → Build (List Node)
  | 0, _ => throw .grammar
  | n + 1, items => do
    match ← peek with
    | some .blockEntry =>
        skip
        let item ← if endsBlockItem (← peek) then pure .empty else node n true false
        blockItems n (item :: items)
    | some .blockEnd => skip; return items.reverse
    | _ => throw .grammar

def indentlessItems : Nat → List Node → Build (List Node)
  | 0, _ => throw .grammar
  | n + 1, items => do
    match ← peek with
    | some .blockEntry =>
        skip
        let t ← peek
        let item ← if endsBlockItem t || endsBlockKey t then pure .empty else node n true false
        indentlessItems n (item :: items)
    | _ => return items.reverse

/-- The value behind a key, which may be missing. -/
def valueOrEmpty : Nat → (block : Bool) → (ended : Option Token → Bool) → Build Node
  | 0, _, _ => throw .grammar
  | n + 1, block, ended => do
    if (← peek) = some .value then
      skip
      nodeOrEmpty n block ended
    else return .empty

def blockEntries : Nat → List (Node × Node) → Build (List (Node × Node))
  | 0, _ => throw .grammar
  | n + 1, entries => do
    match ← peek with
    | some .key =>
        skip
        let key ← nodeOrEmpty n true endsBlockKey
        let value ← valueOrEmpty n true endsBlockKey
        blockEntries n ((key, value) :: entries)
    | some .blockEnd => skip; return entries.reverse
    | _ => throw .grammar

/-- Commas stand between the parts of a flow collection. The answer tells whether the collection goes on. -/
def flowGoesOn (first : Bool) (last : Token) : Build Bool := do
  if (← peek) = some last then skip; return false
  if !first then
    if (← peek) ≠ some .flowEntry then throw .grammar
    skip
    if (← peek) = some last then skip; return false
  return true

/-- A mapping of one entry inside a sequence. A key of which nothing is written takes the next token
with it. -/
def flowPair : Nat → Build Node
  | 0 => throw .grammar
  | n + 1 => do
    skip
    let key ← if endsFlowKey .flowSequenceEnd (← peek) then do skip; pure .empty else node n false false
    let value ← valueOrEmpty n false (endsFlowItem .flowSequenceEnd)
    return .mapping .map [(key, value)]

def flowItems : Nat → (first : Bool) → List Node → Build (List Node)
  | 0, _, _ => throw .grammar
  | n + 1, first, items => do
    if ← flowGoesOn first .flowSequenceEnd then
      let item ← if (← peek) = some .key then flowPair n else node n false false
      flowItems n false (item :: items)
    else return items.reverse

def flowEntry : Nat → Build (Node × Node)
  | 0 => throw .grammar
  | n + 1 => do
    if (← peek) = some .key then
      skip
      let key ← nodeOrEmpty n false (endsFlowKey .flowMappingEnd)
      let value ← valueOrEmpty n false (endsFlowItem .flowMappingEnd)
      return (key, value)
    else return (← node n false false, .empty)

def flowEntries : Nat → (first : Bool) → List (Node × Node) → Build (List (Node × Node))
  | 0, _, _ => throw .grammar
  | n + 1, first, entries => do
    if ← flowGoesOn first .flowMappingEnd then
      let entry ← flowEntry n
      flowEntries n false (entry :: entries)
    else return entries.reverse

end

/-! ## Documents -/

def isDirective : Option Token → Bool
  | some (.version ..) => true
  | some (.handle ..) => true
  | _ => false

def isDocumentMark (t : Option Token) : Bool := t = some .documentStart || t = some .documentEnd

/-- Directives, and the mark that has to follow them. -/
def documentStart (fuel : Nat) : Build Unit := do
  directives fuel false []
  if (← peek) ≠ some .documentStart then throw .grammar
  skip

/-- Without directives the first document needs no mark. -/
def firstNode (fuel : Nat) : Build Node := do
  let t ← peek
  if isDirective t || t = some .documentStart then
    documentStart fuel
    let t ← peek
    if isDirective t || isDocumentMark t || t.isNone then return .empty else node fuel true false
  else
    directives fuel false []
    node fuel true false

def skipEnds : Nat → Build Unit
  | 0 => pure ()
  | n + 1 => do if (← peek) = some .documentEnd then skip; skipEnds n

/-- A second document is refused only after its start has been read. -/
def noFurther (fuel : Nat) : Build Unit := do
  skipEnds fuel
  if (← peek).isSome then
    documentStart fuel
    throw .reference

/-- The node of the only document, if there is one. -/
def document (fuel : Nat) : Build (Option Node) := do
  if (← peek).isNone then return none
  let root ← firstNode fuel
  noFurther fuel
  return some root

end Build

/-- Enough for the depth of the calls: no more than four in a row pass no token. -/
def Node.ofTokens (list : TokenList) : Except Error (Option Node) :=
  (Build.document (4 * list.tokens.length + 8)).run' { tokens := list.tokens, error := list.error }

end ChipEight.Yaml
