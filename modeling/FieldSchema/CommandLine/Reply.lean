import FieldSchema.CommandLine.Invocation
import FieldSchema.CommandLine.LogFilter
import FieldSchema.Document.File
import FieldSchema.Schema.Definitions
import FieldSchema.Schema.Json
import FieldSchema.Yaml.Printer

/-!
# Replies

What the program answers to a command line: a text, the cause of a failure, or what is wrong with
the command line. Definitions that conflict with the kept one of their name are no failure; how many
there are is told where warnings are shown.
-/

namespace FieldSchema.CommandLine

open FieldSchema.Json (Value)

/-- Why a mapping file is not converted. -/
inductive Failure where
  | document (e : Document.Error)
  | schema (e : SchemaError)

/-- The text of a failure. -/
def Failure.message : Failure → String
  | .document e => e.message?.getD "the document is not well formed"
  | .schema e => e.message

/-- What the program answers. -/
inductive Reply where
  /-- A text, and how many conflicts are warned of. -/
  | text (s : String) (conflicts : Nat)
  | failure (f : Failure)
  | misuse (m : Misuse)

/-- What the program runs in. -/
structure World where
  /-- The value of a variable of the environment. -/
  environment : String → Option String
  /-- The bytes of a file. -/
  file : String → Option ByteArray

/-- The message that definitions conflict. -/
def conflictMessage : Message := ⟨"binder_swagger", ["message", "definition"]⟩

/-- The variable that holds the filter of messages. -/
def filterVariable : String := "RUST_LOG"

/-- The program and its version. -/
def versionText : String := "binder-swagger 0.1.0"

/-- How the program is used. -/
def helpText : String :=
  "Usage: binder-swagger [OPTIONS] <COMMAND>\n\n" ++
  "Commands:\n" ++
  "  parameters   Writes the request parameters of a mapping document\n" ++
  "  definitions  Writes the definitions of a mapping document\n\n" ++
  "Options:\n" ++
  "  --input <FILE>                         The mapping document (.yaml, .yml or .json)\n" ++
  "  --name <NAME>                          The name of a single parameter\n" ++
  "  --output <json|yaml>                   The format of the output\n" ++
  "  --primitive-list-params <true|false>   Accept lists of primitives outside the body\n" ++
  "  --collection-format <csv|ssv|tsv|pipes|multi>\n" ++
  "  -h, --help\n" ++
  "  -V, --version"

/-- The text of a value in a format. -/
def Output.write (v : Value) : Output → String
  | .json => v.pretty
  | .yaml => v.yaml

/-- Carries a request out on the mapping of its file. Gives the output and the number of conflicts. -/
def Request.convert (r : Request) (m : Mapping) : Except SchemaError (Value × Nat) :=
  match r.command with
  | .parameters name => do
    let parameters ← m.toParameters r.settings name
    return (Parameter.document parameters, 0)
  | .definitions => do
    let named ← m.definitions
    let merged := Definitions.assemble named
    return (merged.document, merged.conflicts)

/-- Carries a request out. -/
def Request.run (file : String → Option ByteArray) (r : Request) :
    Except Failure (String × Nat) := do
  let m ← (Document.mappingOfFile r.input (file r.input)).mapError .document
  let (v, conflicts) ← (r.convert m).mapError .schema
  return (r.output.write v, conflicts)

/-- Whether the program warns. -/
def World.warns (w : World) : Bool :=
  (levelOf ((w.environment filterVariable).getD "") conflictMessage).shows .warn

/-- The reply to a command line. -/
def Reply.ofWords (w : World) (words : List String) : Reply :=
  match Invocation.ofWords w.environment words with
  | .error m => .misuse m
  | .ok .help => .text helpText 0
  | .ok .version => .text versionText 0
  | .ok (.request r) =>
    match r.run w.file with
    | .ok (s, conflicts) => .text s (if w.warns then conflicts else 0)
    | .error f => .failure f

/-- The exit status of a reply. -/
def Reply.status : Reply → UInt32
  | .text .. => 0
  | .failure _ => 1
  | .misuse _ => 2

end FieldSchema.CommandLine
