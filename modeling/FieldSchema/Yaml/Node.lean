import FieldSchema.Entries
import FieldSchema.Yaml.Token

/-!
# YAML nodes

What a text spells, as far as it is YAML. A `Node` is a scalar, a sequence, a mapping or an alias of a
node that was marked before. Where the text goes wrong the node that was to follow is
`Node.missing` and the collections around it are not closed, so that whoever takes a node apart in
the order of the text meets the mistakes of the text and its own objections in the order of the
text.

* `Document.ofText` reads the first document of a text. An anchor is numbered by how many names
  were used before it; an alias gives the number that its name has at that place.
* `Node.target?` is the node of a number, the last one if several have it.
* `Node.events` is the size of a node, in beginnings and ends.
-/

namespace FieldSchema.Yaml

/-- A value as far as a text spells it. -/
inductive Node where
  | scalar (anchor : Option Nat) (tag : Option Tag) (text : String) (style : Style)
  | sequence (anchor : Option Nat) (tag : Option Tag) (items : List Node) (closed : Bool)
  | mapping (anchor : Option Nat) (tag : Option Tag) (entries : List (Node × Node))
      (closed : Bool)
  | alias (number : Nat)
  | missing

/-- The first document of a text. -/
inductive Document where
  /-- The text holds no document. -/
  | empty
  /-- A document, and whether the text is well formed and holds no other. -/
  | root (node : Node) (whole : Bool)

/-- What is known while nodes are made of tokens. -/
structure Parse where
  tokens : List Token
  /-- The number of each anchor name. -/
  anchors : Entries Nat := []
  /-- What tag handles stand for. -/
  handles : List (List Char × List UInt8)

namespace Parse

/-- What the handles stand for that need no directive. -/
def defaultHandles : List (List Char × List UInt8) :=
  [(['!'], (Tag.ofString "!").bytes), (['!', '!'], (Tag.standard "").bytes)]

/-- Moves over tokens. -/
def drop (p : Parse) (n : Nat) : Parse := { p with tokens := p.tokens.drop n }

/-- The tag that is written so. -/
def tag? (p : Parse) (t : TagText) : Option Tag :=
  if t.handle.isEmpty then some ⟨t.suffix⟩
  else (p.handles.find? fun (h, _) => h = t.handle).map fun (_, start) => ⟨start ++ t.suffix⟩

/-- Takes the anchor and the tag before a node, in either order. -/
def properties? (p : Parse) : Option (Option String × Option Tag × Parse) :=
  let name (n : List Char) : Option String := some (String.ofList n)
  match p.tokens with
  | .anchor n :: .tag t :: _ | .tag t :: .anchor n :: _ =>
    (p.tag? t).map fun tag => (name n, some tag, p.drop 2)
  | .anchor n :: _ => some (name n, none, p.drop 1)
  | .tag t :: _ => (p.tag? t).map fun tag => (none, some tag, p.drop 1)
  | _ => some (none, none, p)

/-- Numbers an anchor. -/
def mark (p : Parse) : Option String → Option Nat × Parse
  | none => (none, p)
  | some name =>
    let n := p.anchors.length
    (some n, { p with anchors := p.anchors.insert name n })

/-- A scalar that is not written. -/
def emptyScalar : Node := .scalar none none "" .plain

/-- Whether the entry of a block ends without a node. -/
def endsBlockEntry : Token → Bool
  | .key | .value | .blockEnd => true
  | _ => false

/-- Whether the item of a block ends without a node. -/
def endsBlockItem : Token → Bool
  | .blockEntry | .blockEnd => true
  | _ => false

/-- Whether an item in brackets ends without a node. -/
def endsFlowItem : Token → Bool
  | .flowEntry | .flowSequenceEnd => true
  | _ => false

/-- Whether an entry in brackets ends without a node. -/
def endsFlowEntry : Token → Bool
  | .flowEntry | .flowMappingEnd => true
  | _ => false

/-- A node and what is left after it. -/
abbrev Made := Node × Option Parse

/-- Makes the node after a token, unless it ends before it begins. -/
def after (ends : Token → Bool) (make : Parse → Made) (p : Parse) : Made :=
  let q := p.drop 1
  match q.tokens with
  | [] => (.missing, none)
  | t :: _ => if ends t then (emptyScalar, some q) else make q

/-- Makes the value of an entry, which is empty if it is not announced. -/
def value (ends : Token → Bool) (make : Parse → Made) (p : Parse) : Made :=
  match p.tokens with
  | [] => (.missing, none)
  | .value :: _ => after ends make p
  | _ => (emptyScalar, some p)

/-- Puts an entry together. -/
def entry (key : Made) (makeValue : Parse → Made) : (Node × Node) × Option Parse :=
  match key with
  | (k, none) => ((k, .missing), none)
  | (k, some p) =>
    let (v, rest) := makeValue p
    ((k, v), rest)

/-- Parts of a collection, whether it is closed, and what is left after it. -/
abbrev Parts (α : Type) := List α × Bool × Option Parse

/-- A collection that goes wrong before its next part. -/
def broken {α : Type} : Parts α := ([], false, none)

/-- Puts a part before the others. -/
def cons {α : Type} (part : α × Option Parse) (others : Parse → Parts α) : Parts α :=
  match part with
  | (a, none) => ([a], false, none)
  | (a, some p) =>
    let (as, rest) := others p
    (a :: as, rest)

mutual

/-- Makes a node of the next tokens; nothing is left where that fails. Blocks are allowed outside of
brackets; in a mapping a sequence may stand without indentation of its own. -/
def node (block indentless : Bool) : Nat → Parse → Made
  | 0, _ => (.missing, none)
  | fuel + 1, p =>
    match p.tokens, p.properties? with
    | .alias name :: _, _ =>
      match p.anchors.find? (String.ofList name) with
      | some n => (.alias n, some (p.drop 1))
      | none => (.missing, none)
    | _, none => (.missing, none)
    | _, some (name, tag, p) =>
      let (n, q) := p.mark name
      match p.tokens with
      | [] => (.missing, none)
      | .scalar text style :: _ =>
        (.scalar n tag (String.ofList text) style, some (q.drop 1))
      | .flowSequenceStart :: _ =>
        let (items, closed, rest) := flowItems true fuel (q.drop 1)
        (.sequence n tag items closed, rest)
      | .flowMappingStart :: _ =>
        let (entries, closed, rest) := flowEntries true fuel (q.drop 1)
        (.mapping n tag entries closed, rest)
      | t :: _ =>
        if indentless && t = .blockEntry then
          let (items, closed, rest) := indentlessItems fuel q
          (.sequence n tag items closed, rest)
        else if block && t = .blockSequenceStart then
          let (items, closed, rest) := blockItems fuel (q.drop 1)
          (.sequence n tag items closed, rest)
        else if block && t = .blockMappingStart then
          let (entries, closed, rest) := blockEntries fuel (q.drop 1)
          (.mapping n tag entries closed, rest)
        else if name.isSome || tag.isSome then (.scalar n tag "" .plain, some q)
        else (.missing, none)

/-- The items of a sequence that is a block. -/
def blockItems : Nat → Parse → Parts Node
  | 0, _ => broken
  | fuel + 1, p =>
    match p.tokens with
    | .blockEnd :: _ => ([], true, some (p.drop 1))
    | .blockEntry :: _ => cons (after endsBlockItem (node true false fuel) p) (blockItems fuel)
    | _ => broken

/-- The items of a sequence without indentation of its own. -/
def indentlessItems : Nat → Parse → Parts Node
  | 0, _ => broken
  | fuel + 1, p =>
    match p.tokens with
    | [] => broken
    | .blockEntry :: _ =>
      cons (after (fun t => endsBlockItem t || endsBlockEntry t) (node true false fuel) p)
        (indentlessItems fuel)
    | _ => ([], true, some p)

/-- The entries of a mapping that is a block. -/
def blockEntries : Nat → Parse → Parts (Node × Node)
  | 0, _ => broken
  | fuel + 1, p =>
    match p.tokens with
    | .blockEnd :: _ => ([], true, some (p.drop 1))
    | .key :: _ =>
      let make := node true true fuel
      cons (entry (after endsBlockEntry make p) (value endsBlockEntry make)) (blockEntries fuel)
    | _ => broken

/-- The items of a sequence in brackets. An item that is announced as a key is a mapping of one
entry. -/
def flowItems (first : Bool) : Nat → Parse → Parts Node
  | 0, _ => broken
  | fuel + 1, p =>
    match p.tokens with
    | .flowSequenceEnd :: _ => ([], true, some (p.drop 1))
    | t :: _ =>
      if !first && t ≠ .flowEntry then broken
      else
        let p := if first then p else p.drop 1
        match p.tokens with
        | [] => broken
        | .flowSequenceEnd :: _ => ([], true, some (p.drop 1))
        | .key :: _ => cons (flowPair fuel (p.drop 1)) (flowItems false fuel)
        | _ => cons (node false false fuel p) (flowItems false fuel)
    | [] => broken

/-- The mapping of one entry in a sequence. Where the key is not written, what stands in its place is
passed over. -/
def flowPair : Nat → Parse → Made
  | 0, _ => (.missing, none)
  | fuel + 1, p =>
    match p.tokens with
    | [] => (.mapping none none [] false, none)
    | t :: _ =>
      let make := node false false fuel
      let key := if t = .value || endsFlowItem t then (emptyScalar, some (p.drop 1)) else make p
      let (e, rest) := entry key (value endsFlowItem make)
      let rest := rest.filter fun r => !r.tokens.isEmpty
      (.mapping none none [e] rest.isSome, rest)

/-- The entries of a mapping in brackets. -/
def flowEntries (first : Bool) : Nat → Parse → Parts (Node × Node)
  | 0, _ => broken
  | fuel + 1, p =>
    match p.tokens with
    | .flowMappingEnd :: _ => ([], true, some (p.drop 1))
    | t :: _ =>
      if !first && t ≠ .flowEntry then broken
      else
        let p := if first then p else p.drop 1
        let make := node false false fuel
        match p.tokens with
        | [] => broken
        | .flowMappingEnd :: _ => ([], true, some (p.drop 1))
        | .key :: _ =>
          let key := after (fun t => t = .value || endsFlowEntry t) make p
          cons (entry key (value endsFlowEntry make)) (flowEntries false fuel)
        | _ =>
          let unannounced (q : Parse) : Made :=
            if q.tokens.isEmpty then (.missing, none) else (emptyScalar, some q)
          cons (entry (make p) unannounced) (flowEntries false fuel)
    | [] => broken

end

/-- Takes the directives of a document: at most one version, which must be known, and no handle
twice. -/
def directives? : Bool → List (List Char × List UInt8) → List Token →
    Option (List (List Char × List UInt8) × List Token)
  | seen, handles, .directive (.version major minor) :: ts =>
    if seen || major ≠ 1 || (minor ≠ 1 && minor ≠ 2) then none else directives? true handles ts
  | seen, handles, .directive (.tag handle start) :: ts =>
    if handles.any fun (h, _) => h = handle then none
    else directives? seen (handles ++ [(handle, start)]) ts
  | _, handles, ts => some (handles, ts)

/-- Whether the tokens after a document are the end of the text. -/
def isOver (tokens : List Token) : Bool :=
  tokens.dropWhile (· = .documentEnd) = [.streamEnd]

/-- A fuel that no text exhausts: no two calls in a row leave the tokens as they are. -/
def fuelFor (tokens : List Token) : Nat := 3 * tokens.length + 10

/-- The document of a node, and what is left. -/
def finish : Node × Option Parse → Document
  | (root, some p) => .root root (isOver p.tokens)
  | (root, none) => .root root false

/-- The first document of tokens. -/
def document (tokens : List Token) : Document :=
  let fuel := fuelFor tokens
  match tokens with
  | [] => .root .missing false
  | .streamEnd :: _ => .empty
  | .directive _ :: _ | .documentStart :: _ =>
    match directives? false [] tokens with
    | some (handles, .documentStart :: ts) =>
      let p : Parse := { tokens := ts, handles := handles ++ defaultHandles }
      match ts with
      | [] => .root .missing false
      | .directive _ :: _ | .documentStart :: _ | .documentEnd :: _ | .streamEnd :: _ =>
        finish (emptyScalar, some p)
      | _ => finish (node true false fuel p)
    | _ => .root .missing false
  | _ => finish (node true false fuel { tokens := tokens, handles := defaultHandles })

end Parse

/-- The first document of a text. -/
def Document.ofText (text : String) : Document := Parse.document (Token.scan text.toList)

namespace Node

mutual

/-- The marked nodes, in the order in which they begin. -/
def anchored : Node → List (Nat × Node)
  | .scalar anchor tag text style =>
    (anchor.map fun n => (n, Node.scalar anchor tag text style)).toList
  | .sequence anchor tag items closed =>
    (anchor.map fun n => (n, Node.sequence anchor tag items closed)).toList ++ anchoredItems items
  | .mapping anchor tag entries closed =>
    (anchor.map fun n => (n, Node.mapping anchor tag entries closed)).toList ++
      anchoredEntries entries
  | .alias _ | .missing => []

/-- The marked nodes of items. -/
def anchoredItems : List Node → List (Nat × Node)
  | [] => []
  | n :: rest => anchored n ++ anchoredItems rest

/-- The marked nodes of entries. -/
def anchoredEntries : List (Node × Node) → List (Nat × Node)
  | [] => []
  | (k, v) :: rest => anchored k ++ (anchored v ++ anchoredEntries rest)

end

/-- The node of a number. -/
def target? (root : Node) (number : Nat) : Option Node :=
  ((root.anchored.filter fun (n, _) => n = number).getLast?).map Prod.snd

mutual

/-- How many beginnings and ends a node has. -/
def events : Node → Nat
  | .scalar .. | .alias _ => 1
  | .sequence _ _ items closed => (if closed then 2 else 1) + itemEvents items
  | .mapping _ _ entries closed => (if closed then 2 else 1) + entryEvents entries
  | .missing => 0

/-- How many beginnings and ends items have. -/
def itemEvents : List Node → Nat
  | [] => 0
  | n :: rest => events n + itemEvents rest

/-- How many beginnings and ends entries have. -/
def entryEvents : List (Node × Node) → Nat
  | [] => 0
  | (k, v) :: rest => events k + (events v + entryEvents rest)

end

end Node

end FieldSchema.Yaml
