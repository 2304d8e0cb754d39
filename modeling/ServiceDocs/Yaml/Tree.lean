import ServiceDocs.Yaml.Token
import ServiceDocs.Yaml.Resolve

/-!
# The Tree of a YAML Text

The tokens of a text form at most one document, and the document is a tree of lists, maps
and scalars. An anchor names the node that carries it, and an alias is a leaf that holds the
number of a node with an anchor.

A node with an anchor takes as its number how many different anchors there were before it. An
anchor that is used again therefore shares its number with the next new one, and what an
alias stands for is the last node in the text that has its number, be it behind the alias.

The recursion is bounded by a number that grows with the number of tokens: each round of a
loop takes a token, and each node takes one or stands for a value that was left out.

## Main definitions

* `Composer`: what is known while a tree is built.
* `node`: the tree at the next tokens.
* `Graph`: a tree together with the nodes that its aliases stand for.
* `graph`: the graph of a text.
-/

namespace ServiceDocs.Yaml

/-- What is known while a tree is built. -/
structure Composer where
  /-- The tokens that follow. -/
  tokens : List Token
  /-- What the handles of tags stand for. -/
  handles : List (String × Tag) := []
  /-- The number of each anchor. -/
  anchors : List (String × Nat) := []
  /-- How many nodes with an anchor have begun. -/
  begun : Nat := 0
  /-- The nodes with an anchor in the order in which they begin, the latest first: the number
  of each, and how many began before it. -/
  holders : List (Nat × Nat) := []
  /-- The complete nodes with an anchor, by how many began before them. -/
  nodes : List (Nat × Node) := []

namespace Composer

/-- The next token. -/
def peek (p : Composer) : Token := p.tokens.headD .streamEnd

/-- Steps over a token. -/
def skip (p : Composer) : Composer := { p with tokens := p.tokens.drop 1 }

/-- Numbers a node with an anchor where it begins. -/
def announce (anchor : Option String) (p : Composer) : Composer :=
  match anchor with
  | none => p
  | some name =>
    let number := p.anchors.length
    { p with
      anchors := OrderedMap.insertEntry name number p.anchors, begun := p.begun + 1,
      holders := (number, p.begun) :: p.holders }

/-- Keeps a node with an anchor where it ends. `start` is what was known when it began. -/
def complete (p : Composer) (anchor : Option String) (start : Composer) (n : Node) : Composer :=
  match anchor with
  | none => p
  | some _ => { p with nodes := (start.begun, n) :: p.nodes }

/-- The leaf of an alias, if there is an anchor of its name before it. -/
def alias? (name : String) (p : Composer) : Option (Node × Composer) := do
  let number ← OrderedMap.findEntry name p.anchors
  return (.alias number, p)

/-- The nodes with an anchor by number, the latest first. -/
def targets (p : Composer) : List (Nat × Node) :=
  p.holders.filterMap fun holder =>
    (OrderedMap.findEntry holder.2 p.nodes).map fun n => (holder.1, n)

/-- The tag that a handle and a suffix stand for. -/
def tag? (handle : String) (suffix : Tag) (p : Composer) : Option Tag :=
  if handle.isEmpty then some suffix
  else (OrderedMap.findEntry handle p.handles).map fun start => start.append suffix

/-- Reads the anchor and the tag before a node, in either order. -/
def properties (p : Composer) : Option (Option String × Option Tag × Composer) :=
  match p.peek with
  | .anchor name =>
    let p := p.skip
    match p.peek with
    | .tag handle suffix => do return (some name, some (← p.tag? handle suffix), p.skip)
    | _ => some (some name, none, p)
  | .tag handle suffix => do
    let tag ← p.tag? handle suffix
    let p := p.skip
    match p.peek with
    | .anchor name => return (some name, some tag, p.skip)
    | _ => return (none, some tag, p)
  | _ => some (none, none, p)

end Composer

/-- A value that is left out. -/
def omitted (tag : Option Tag) : Node := .scalar ⟨"", .plain, tag⟩

/-- A list or map with its tag, if the tag names a variant. -/
def withTag (tag : Option Tag) (n : Node) : Node :=
  match tag.bind (·.variant?) with
  | none => n
  | some variant => .tagged variant n

/-- What may follow where a node may be left out. -/
abbrev Follow := Token → Bool

/-- What follows an entry of a block list. -/
def afterEntry : Follow
  | .blockEntry | .blockEnd => true
  | _ => false

/-- What follows an entry of a list that is not indented. -/
def afterPlainEntry : Follow
  | .blockEntry | .key | .value | .blockEnd => true
  | _ => false

/-- What follows a key or value of a block map. -/
def afterMember : Follow
  | .key | .value | .blockEnd => true
  | _ => false

/-- What follows a key between brackets. -/
def afterFlowKey (close : Token) : Follow := fun t => t == .value || t == .flowEntry || t == close

/-- What follows a value between brackets. -/
def afterFlowValue (close : Token) : Follow := fun t => t == .flowEntry || t == close

mutual

/-- Reads a node. `block` says whether it may be a block, and `hyphens` whether it may be a
list with its hyphens in the column of the map around it. -/
def node (block hyphens : Bool) : Nat → Composer → Option (Node × Composer)
  | 0, _ => none
  | fuel + 1, p =>
    match p.peek with
    | .alias name => p.skip.alias? name
    | _ => do
      let (anchor, tag, start) ← p.properties
      let done := fun (n : Node) (p : Composer) => (n, p.complete anchor start n)
      let p := start.announce anchor
      match p.peek with
      | .blockEntry =>
        if hyphens then do
          let (items, p) ← plainEntries fuel [] p
          return done (withTag tag (.array items .closed)) p
        else if anchor.isSome || tag.isSome then return done (omitted tag) p
        else none
      | .scalar text style => return done (.scalar ⟨text, style, tag⟩) p.skip
      | .flowSequenceStart => do
        let (items, p) ← flowItems true fuel [] p.skip
        return done (withTag tag (.array items .closed)) p
      | .flowMappingStart => do
        let (fields, p) ← flowFields true fuel [] p.skip
        return done (withTag tag (.object fields .closed)) p
      | .blockSequenceStart =>
        if block then do
          let (items, p) ← blockEntries fuel [] p.skip
          return done (withTag tag (.array items .closed)) p
        else if anchor.isSome || tag.isSome then return done (omitted tag) p
        else none
      | .blockMappingStart =>
        if block then do
          let (fields, p) ← blockFields fuel [] p.skip
          return done (withTag tag (.object fields .closed)) p
        else if anchor.isSome || tag.isSome then return done (omitted tag) p
        else none
      | _ =>
        if anchor.isSome || tag.isSome then return done (omitted tag) p else none

/-- Reads a node, or nothing where one is left out. -/
def nodeUnless (follow : Follow) (block hyphens : Bool) :
    Nat → Composer → Option (Node × Composer)
  | 0, _ => none
  | fuel + 1, p =>
    if follow p.peek then some (omitted none, p) else node block hyphens fuel p

/-- Reads the entries of a block list. -/
def blockEntries : Nat → List Node → Composer → Option (List Node × Composer)
  | 0, _, _ => none
  | fuel + 1, read, p =>
    match p.peek with
    | .blockEntry => do
      let (n, p) ← nodeUnless afterEntry true false fuel p.skip
      blockEntries fuel (n :: read) p
    | .blockEnd => some (read.reverse, p.skip)
    | _ => none

/-- Reads the entries of a list that is not indented. -/
def plainEntries : Nat → List Node → Composer → Option (List Node × Composer)
  | 0, _, _ => none
  | fuel + 1, read, p =>
    match p.peek with
    | .blockEntry => do
      let (n, p) ← nodeUnless afterPlainEntry true false fuel p.skip
      plainEntries fuel (n :: read) p
    | _ => some (read.reverse, p)

/-- Reads the members of a block map. -/
def blockFields : Nat → List (Node × Node) → Composer → Option (List (Node × Node) × Composer)
  | 0, _, _ => none
  | fuel + 1, read, p =>
    match p.peek with
    | .key => do
      let (key, p) ← nodeUnless afterMember true true fuel p.skip
      match p.peek with
      | .value => do
        let (value, p) ← nodeUnless afterMember true true fuel p.skip
        blockFields fuel ((key, value) :: read) p
      | _ => blockFields fuel ((key, omitted none) :: read) p
    | .blockEnd => some (read.reverse, p.skip)
    | _ => none

/-- Reads the items of a list between brackets. An item may be a map of one member without
braces. -/
def flowItems (first : Bool) : Nat → List Node → Composer → Option (List Node × Composer)
  | 0, _, _ => none
  | fuel + 1, read, p =>
    if p.peek == .flowSequenceEnd then some (read.reverse, p.skip)
    else
      let start := if first then some p else if p.peek == .flowEntry then some p.skip else none
      match start with
      | none => none
      | some p =>
        match p.peek with
        | .flowSequenceEnd => some (read.reverse, p.skip)
        | .key => do
          let (field, p) ← flowPair fuel p.skip
          flowItems false fuel (.object [field] .closed :: read) p
        | _ => do
          let (n, p) ← node false false fuel p
          flowItems false fuel (n :: read) p

/-- Reads a member without braces. -/
def flowPair : Nat → Composer → Option ((Node × Node) × Composer)
  | 0, _ => none
  | fuel + 1, p => do
    let leftOut := afterFlowKey .flowSequenceEnd p.peek
    let (key, p) ←
      if leftOut then some (omitted none, p.skip) else node false false fuel p
    match p.peek with
    | .value => do
      let (value, p) ← nodeUnless (afterFlowValue .flowSequenceEnd) false false fuel p.skip
      return ((key, value), p)
    | _ => return ((key, omitted none), p)

/-- Reads the members of a map between braces. A key may stand without a value. -/
def flowFields (first : Bool) :
    Nat → List (Node × Node) → Composer → Option (List (Node × Node) × Composer)
  | 0, _, _ => none
  | fuel + 1, read, p =>
    if p.peek == .flowMappingEnd then some (read.reverse, p.skip)
    else
      let start := if first then some p else if p.peek == .flowEntry then some p.skip else none
      match start with
      | none => none
      | some p =>
        match p.peek with
        | .flowMappingEnd => some (read.reverse, p.skip)
        | .key => do
          let (key, p) ← nodeUnless (afterFlowKey .flowMappingEnd) false false fuel p.skip
          match p.peek with
          | .value => do
            let (value, p) ← nodeUnless (afterFlowValue .flowMappingEnd) false false fuel p.skip
            flowFields false fuel ((key, value) :: read) p
          | _ => flowFields false fuel ((key, omitted none) :: read) p
        | _ => do
          let (key, p) ← node false false fuel p
          flowFields false fuel ((key, omitted none) :: read) p

end

/-! ### Documents -/

/-- The handles that need no directive. -/
def standardHandles : List (String × Tag) := [("!", .own), ("!!", .standardStart)]

/-- Reads the directives before a document. `versioned` says whether the version was
given. -/
def directives (versioned : Bool) : List Token → List (String × Tag) →
    Option (List (String × Tag) × List Token)
  | .directive (.version major minor) :: rest, handles =>
    if versioned || major ≠ 1 || (minor ≠ 1 && minor ≠ 2) then none
    else directives true rest handles
  | .directive (.handle h meaning) :: rest, handles =>
    if (OrderedMap.findEntry h handles).isSome then none
    else directives versioned rest (handles ++ [(h, meaning)])
  | tokens, handles => some (handles, tokens)

/-- Reads the content of a document that is marked. -/
def markedDocument (fuel : Nat) (p : Composer) : Option (Node × Composer) :=
  match p.peek with
  | .directive _ | .documentStart | .documentEnd | .streamEnd => some (omitted none, p)
  | _ => node true false fuel p

/-- A tree together with the nodes that its aliases stand for. -/
structure Graph where
  /-- The tree. -/
  root : Node
  /-- The nodes with an anchor by number. Of two with one number the first counts. -/
  targets : List (Nat × Node)

/-- Reads the only document of a text. A text without document is read as an empty one. -/
def document (tokens : List Token) : Option Graph := do
  let fuel := 4 * tokens.length + 16
  let (n, p) ←
    match tokens with
    | .streamEnd :: _ => some (omitted none, { tokens : Composer })
    | .directive _ :: _ | .documentStart :: _ => do
      let (handles, rest) ← directives false tokens []
      match rest with
      | .documentStart :: rest =>
        markedDocument fuel { tokens := rest, handles := handles ++ standardHandles }
      | _ => none
    | _ => node true false fuel { tokens, handles := standardHandles }
  match p.tokens.dropWhile (· == .documentEnd) with
  | [.streamEnd] => return { root := n, targets := p.targets }
  | _ => none

/-- The graph of a text, or nothing if the text is wrong or has more than one document. -/
def graph (text : String) : Option Graph := do
  let tokens ← Token.scan text
  document tokens

end ServiceDocs.Yaml
