import PromptTemplate.Dictionary
import PromptTemplate.Yaml.Document
import PromptTemplate.Yaml.Scan

/-!
# Reading YAML documents

The grammar over tokens. A node that is missing where one may stand is an empty plain
scalar. The readers of nested nodes count down a number that bounds how many of them are
under way; four times the number of tokens is enough, since a reader that takes no token
calls at most two others before one is taken.
-/

namespace PromptTemplate.Yaml

/-- What has been read of a document. -/
structure Reading where
  tokens : List Token
  handles : Dictionary String
  /-- The slots of the names anchored so far. -/
  slots : Dictionary Nat
  anchors : Nat
  anchored : List Anchored
  size : Nat

abbrev Read := StateT Reading Option

namespace Read

def peek : Read (Option Token) := do return (← get).tokens.head?

def next : Read Unit := modify fun r => { r with tokens := r.tokens.tail }

/-- Takes a token that is wanted here. -/
def take (t : Token) : Read Unit := do
  if (← peek) = some t then next else failure

/-- Whether the next token is one of some tokens. -/
def sees (ts : List Token) : Read Bool := do
  return (← peek).any ts.contains

def grow (n : Nat) : Read Unit := modify fun r => { r with size := r.size + n }

def empty : Read Node := do
  grow 1
  return .scalar none .plain ""

/-- The whole name of a tag. -/
def tagName (handle suffix : String) : Read String := do
  if handle.isEmpty then return suffix
  else
    let standard :=
      if handle = "!" then some "!"
      else if handle = "!!" then some "tag:yaml.org,2002:"
      else none
    match (Dictionary.get? (← get).handles handle) <|> standard with
    | some meaning => return meaning ++ suffix
    | none => failure

/-- The anchor and the tag before a node, in either order. -/
def properties : Read (Option String × Option Tag) := do
  match (← get).tokens with
  | .anchor name :: .tag handle suffix :: _ | .tag handle suffix :: .anchor name :: _ => do
    next
    next
    return (some name, some (Tag.ofName (← tagName handle suffix)))
  | .anchor name :: _ => do
    next
    return (some name, none)
  | .tag handle suffix :: _ => do
    next
    return (none, some (Tag.ofName (← tagName handle suffix)))
  | _ => return (none, none)

/-- Gives a name its slot: the number of names that there were before. -/
def declare (name : String) : Read (Nat × Nat) := do
  let r ← get
  let slot := r.slots.length
  set { r with slots := Dictionary.put r.slots name slot, anchors := r.anchors + 1 }
  return (slot, r.anchors)

/-- Reads a node under its anchor. -/
def anchored (name : Option String) (node : Read Node) : Read Node :=
  match name with
  | none => node
  | some name => do
    let (slot, order) ← declare name
    let a ← node
    modify fun r => { r with anchored := ⟨slot, order, a⟩ :: r.anchored }
    return a

def aliasedNode (name : String) : Read Node := do
  next
  grow 1
  match Dictionary.get? (← get).slots name with
  | some slot => return .aliased slot
  | none => failure

/-! ## Nodes -/

/-- Reads a node, or an empty one before a token that cannot begin it. -/
def orEmpty (stops : List Token) (node : Read Node) : Read Node := do
  if ← sees stops then empty else node

/-- Reads what stands behind a token, if the token is there. -/
def behind (t : Token) (node : Read Node) : Read Node := do
  if (← peek) = some t then
    next
    node
  else empty

mutual

/-- A node. Block collections may begin only where blocks are allowed; the items of a
sequence may lack their own indentation where they belong to a key. -/
def node (fuel : Nat) (block loose : Bool) : Read Node :=
  match fuel with
  | 0 => failure
  | fuel + 1 => do
    match ← peek with
    | some (.aliased name) => aliasedNode name
    | _ =>
      let (name, tag) ← properties
      anchored name (content fuel block loose (name.isSome || tag.isSome) tag)

/-- A node without its properties, which may be missing if there are properties. -/
def content (fuel : Nat) (block loose optional : Bool) (tag : Option Tag) : Read Node :=
  match fuel with
  | 0 => failure
  | fuel + 1 => do
    match (← peek), block, loose with
    | some (.scalar style text), _, _ =>
      next
      grow 1
      return .scalar tag style text
    | some .flowSequence, _, _ =>
      next
      grow 2
      return .sequence tag (← flowItems fuel true)
    | some .flowMapping, _, _ =>
      next
      grow 2
      return .mapping tag (← flowEntries fuel true)
    | some .blockSequence, true, _ =>
      next
      grow 2
      return .sequence tag (← blockItems fuel)
    | some .blockMapping, true, _ =>
      next
      grow 2
      return .mapping tag (← blockEntries fuel)
    | some .item, _, true =>
      grow 2
      return .sequence tag (← looseItems fuel)
    | _, _, _ =>
      if optional then
        grow 1
        return .scalar tag .plain ""
      else failure

def blockItems (fuel : Nat) : Read (List Node) :=
  match fuel with
  | 0 => failure
  | fuel + 1 => do
    match ← peek with
    | some .item =>
      next
      let a ← orEmpty [.item, .blockEnd] (node fuel true false)
      return a :: (← blockItems fuel)
    | some .blockEnd =>
      next
      return []
    | _ => failure

def looseItems (fuel : Nat) : Read (List Node) :=
  match fuel with
  | 0 => failure
  | fuel + 1 => do
    match ← peek with
    | some .item =>
      next
      let a ← orEmpty [.item, .key, .value, .blockEnd] (node fuel true false)
      return a :: (← looseItems fuel)
    | _ => return []

def blockEntries (fuel : Nat) : Read (List (Node × Node)) :=
  match fuel with
  | 0 => failure
  | fuel + 1 => do
    match ← peek with
    | some .key =>
      next
      let part := orEmpty [.key, .value, .blockEnd] (node fuel true true)
      let key ← part
      let value ← behind .value part
      return (key, value) :: (← blockEntries fuel)
    | some .blockEnd =>
      next
      return []
    | _ => failure

/-- The items between square brackets; a key among them is a mapping by itself. -/
def flowItems (fuel : Nat) (first : Bool) : Read (List Node) :=
  match fuel with
  | 0 => failure
  | fuel + 1 => do
    if (← peek) = some .flowSequenceEnd then
      next
      return []
    else
      if !first then take .comma
      match ← peek with
      | some .flowSequenceEnd =>
        next
        return []
      | some .key =>
        next
        grow 2
        let a ← flowPair fuel
        return a :: (← flowItems fuel false)
      | _ =>
        let a ← node fuel false false
        return a :: (← flowItems fuel false)

/-- A key with its value between square brackets. Where the key itself is missing, the
token in its place is passed over. -/
def flowPair (fuel : Nat) : Read Node :=
  match fuel with
  | 0 => failure
  | fuel + 1 => do
    let key ←
      if ← sees [.value, .comma, .flowSequenceEnd] then do
        next
        empty
      else node fuel false false
    let value ← behind .value
      (orEmpty [.comma, .flowSequenceEnd] (node fuel false false))
    return .mapping none [(key, value)]

/-- The entries between braces; one without a key mark is a key alone. -/
def flowEntries (fuel : Nat) (first : Bool) : Read (List (Node × Node)) :=
  match fuel with
  | 0 => failure
  | fuel + 1 => do
    if (← peek) = some .flowMappingEnd then
      next
      return []
    else
      if !first then take .comma
      match ← peek with
      | some .flowMappingEnd =>
        next
        return []
      | some .key =>
        next
        let key ← orEmpty [.value, .comma, .flowMappingEnd] (node fuel false false)
        let value ← behind .value
          (orEmpty [.comma, .flowMappingEnd] (node fuel false false))
        return (key, value) :: (← flowEntries fuel false)
      | _ =>
        let key ← node fuel false false
        let value ← empty
        return (key, value) :: (← flowEntries fuel false)

end

/-! ## Documents -/

/-- The directives before a document: at most one version, which has to be one that is
understood, and at most one meaning for each handle. -/
def directives (versioned : Bool) : List Token → Read Unit
  | .version major minor :: rest =>
    if versioned ∨ major ≠ 1 ∨ (minor ≠ 1 ∧ minor ≠ 2) then failure
    else do
      next
      directives true rest
  | .handle name meaning :: rest => do
    let r ← get
    if Dictionary.contains r.handles name then failure
    else
      set { r with handles := Dictionary.put r.handles name meaning }
      next
      directives versioned rest
  | _ => return ()

def isDirective : Token → Bool
  | .version .. | .handle .. => true
  | _ => false

/-- The root of a document, whose beginning is marked or not. -/
def root (fuel : Nat) : Read (Option Node) := do
  match ← peek with
  | none => return none
  | some t =>
    if isDirective t || t == .documentStart then
      directives false (← get).tokens
      take .documentStart
      match ← peek with
      | none => return some (← empty)
      | some t =>
        if isDirective t || t == .documentStart || t == .documentEnd then
          return some (← empty)
        else return some (← node fuel true false)
    else return some (← node fuel true false)

end Read

/-- The only document of a text. Marks for its end may follow it, and nothing else. -/
def document? (cs : List Char) : Option Document := do
  let tokens ← tokens? cs
  let (root, r) ← (Read.root (4 * tokens.length + 4)).run ⟨tokens, [], [], 0, [], 0⟩
  if r.tokens.all (· == .documentEnd) then
    some ⟨root, r.anchored, r.size⟩
  else none

end PromptTemplate.Yaml
