import FieldSchema.Json.Token

/-!
# JSON nodes

What a text spells, as far as it is JSON. A `Node` is a JSON value of which a part may be missing:
where the text goes wrong, the value that was to follow is `Node.broken` and the containers around
it are not closed. So whoever takes a node apart in the order of the text meets the mistakes of the
text and its own objections in the order of the text.

* `Node.ofTokens` builds the node of a list of tokens, by a stack of the open containers.
* `Node.value?` is the value of a node from which nothing is missing. A repeated name in an object
  keeps its first place and has its last value.
* `Value.ofText?` reads a whole text.
-/

namespace FieldSchema.Json

/-- A value as far as a text spells it. -/
inductive Node where
  | null
  | bool (b : Bool)
  | number (n : Number)
  | string (s : String)
  | array (items : List Node) (closed : Bool)
  | object (entries : List (String × Node)) (closed : Bool)
  | broken

namespace Node

/-- An open container, with its contents so far, the latest first. -/
inductive Frame where
  | array (items : List Node)
  /-- An object whose entry of this name is to come. -/
  | object (entries : List (String × Node)) (name : String)

/-- Puts a last node into the open containers and leaves them open. -/
def breakOff : List Frame → Node → Node
  | [], last => last
  | .array items :: stack, last => breakOff stack (.array (last :: items).reverse false)
  | .object entries name :: stack, last =>
    breakOff stack (.object ((name, last) :: entries).reverse false)

mutual

/-- Reads a value inside the open containers, and goes on to the end of the outermost one. Gives the
outermost node and the tokens after it. -/
def readValue (stack : List Frame) : List Token → Node × List Token
  | .null :: ts => readNext .null stack ts
  | .bool b :: ts => readNext (.bool b) stack ts
  | .number n :: ts => readNext (.number n) stack ts
  | .string s :: ts => readNext (.string s) stack ts
  | .beginArray :: .endArray :: ts => readNext (.array [] true) stack ts
  | .beginArray :: ts => readValue (.array [] :: stack) ts
  | .beginObject :: .endObject :: ts => readNext (.object [] true) stack ts
  | .beginObject :: ts => readName [] stack ts
  | _ => (breakOff stack .broken, [])

/-- Goes on after a value. -/
def readNext (value : Node) : List Frame → List Token → Node × List Token
  | [], ts => (value, ts)
  | .array items :: stack, .comma :: ts => readValue (.array (value :: items) :: stack) ts
  | .array items :: stack, .endArray :: ts =>
    readNext (.array (value :: items).reverse true) stack ts
  | .object entries name :: stack, .comma :: ts => readName ((name, value) :: entries) stack ts
  | .object entries name :: stack, .endObject :: ts =>
    readNext (.object ((name, value) :: entries).reverse true) stack ts
  | stack, _ => (breakOff stack value, [])

/-- Reads the name of an entry. -/
def readName (entries : List (String × Node)) (stack : List Frame) : List Token → Node × List Token
  | .string name :: .colon :: ts => readValue (.object entries name :: stack) ts
  | .string name :: _ => (breakOff (.object entries name :: stack) .broken, [])
  | _ => (breakOff stack (.object entries.reverse false), [])

end

/-- The node that tokens spell, and whether nothing comes after it. -/
def ofTokens (ts : List Token) : Node × Bool :=
  let (node, rest) := readValue [] ts
  (node, rest.isEmpty)

/-- The node that a text spells, and whether nothing but blanks comes after it. -/
def ofText (text : String) : Node × Bool := ofTokens (Token.scan text.toList)

mutual

/-- The value of a node from which nothing is missing. -/
def value? : Node → Option Value
  | .null => some .null
  | .bool b => some (.bool b)
  | .number n => some (.number n)
  | .string s => some (.string s)
  | .array items true => (values? items).map .array
  | .object entries true => (entryValues? entries).map fun es => .object (Entries.ofList es)
  | .array _ false | .object _ false | .broken => none

/-- The values of the items of an array. -/
def values? : List Node → Option (List Value)
  | [] => some []
  | n :: rest => do
    let v ← value? n
    let vs ← values? rest
    return v :: vs

/-- The values of the entries of an object. -/
def entryValues? : List (String × Node) → Option (List (String × Value))
  | [] => some []
  | (name, n) :: rest => do
    let v ← value? n
    let vs ← entryValues? rest
    return (name, v) :: vs

end

end Node

/-- The value of a text that is JSON as a whole. -/
def Value.ofText? (text : String) : Option Value :=
  match Node.ofText text with
  | (node, true) => node.value?
  | (_, false) => none

end FieldSchema.Json
