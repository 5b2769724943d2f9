import FieldSchema.Schema.Parameter

/-!
# Invocations

What the words of a command line ask for. Options stand before or after the name of the command; the
general ones may stand in both places, and then the later one counts. A general option that is not
given is taken from its variable of the environment.

A word that begins with a dash is an option, so only another word can be the separate value of one.
The first thing that is wrong is reported, except that the version and the help are given as soon as
they are asked for.

* `Word.ofString` tells what a word is.
* `readOptions` reads the options of one place.
* `Invocation.ofWords` reads a whole command line.
-/

namespace FieldSchema.CommandLine

/-! ## Words -/

/-- A word of a command line. -/
inductive Word where
  /-- The mark after which no options follow. -/
  | endOfOptions
  /-- An option, and the value after its equals sign. -/
  | option (name : String) (value : Option String)
  /-- Options of one letter each. -/
  | letters (first : Char) (others : List Char)
  | plain (text : String)
  deriving DecidableEq, Repr

/-- What a word is. A single dash is a plain word. -/
def Word.ofString (s : String) : Word :=
  match s.toList with
  | ['-', '-'] => .endOfOptions
  | '-' :: '-' :: r =>
    let name := r.takeWhile (· ≠ '=')
    let value := (r.drop name.length).tail?
    .option (String.ofList name) (value.map String.ofList)
  | '-' :: c :: r => .letters c r
  | _ => .plain s

/-! ## Options -/

/-- The format of the output. -/
inductive Output where
  | json
  | yaml
  deriving DecidableEq, Repr

/-- The name of an output format. -/
def Output.name : Output → String
  | .json => "json"
  | .yaml => "yaml"

/-- An option with a value. -/
inductive Flag where
  | input
  | name
  | output
  | primitiveListParams
  | collectionFormat
  deriving DecidableEq, Repr

namespace Flag

/-- The name of an option, without its dashes. -/
def text : Flag → String
  | .input => "input"
  | .name => "name"
  | .output => "output"
  | .primitiveListParams => "primitive-list-params"
  | .collectionFormat => "collection-format"

/-- The options that do not belong to a command. -/
def general : List Flag := [.output, .primitiveListParams, .collectionFormat]

/-- The variable that stands in for an option. -/
def environmentName? : Flag → Option String
  | .primitiveListParams => some "BINDER_SWAGGER_PRIMITIVE_LIST_PARAMS"
  | .collectionFormat => some "BINDER_SWAGGER_COLLECTION_FORMAT"
  | _ => none

end Flag

/-- What is wrong with a command line. -/
inductive Misuse where
  | unexpected (word : String)
  | missingValue (flag : Flag)
  | invalidValue (flag : Flag) (value : String)
  | repeated (flag : Flag)
  | missingCommand
  | missingInput
  deriving DecidableEq, Repr

/-- The text of a misuse. -/
def Misuse.message : Misuse → String
  | .unexpected word => "unexpected argument '" ++ word ++ "'"
  | .missingValue flag => "a value is required for '--" ++ flag.text ++ "'"
  | .invalidValue flag value => "invalid value '" ++ value ++ "' for '--" ++ flag.text ++ "'"
  | .repeated flag => "the argument '--" ++ flag.text ++ "' cannot be used multiple times"
  | .missingCommand => "a command is required"
  | .missingInput => "the argument '--input' is required"

/-- The values given to options in one place. -/
structure Given where
  input : Option String := none
  name : Option String := none
  output : Option Output := none
  primitiveListParams : Option Bool := none
  collectionFormat : Option CollectionFormat := none
  deriving DecidableEq, Repr

namespace Given

/-- Fills a place that is still empty. -/
def fill {α : Type} (flag : Flag) (text : String) (place : Option α) (value : Option α) :
    Except Misuse (Option α) :=
  match place, value with
  | some _, some _ => .error (.repeated flag)
  | _, none => .error (.invalidValue flag text)
  | none, some x => .ok (some x)

/-- Takes in the value of an option. -/
def set (g : Given) (text : String) : Flag → Except Misuse Given
  | .input => do
    let x ← fill .input text g.input (if text = "" then none else some text)
    return { g with input := x }
  | .name => do
    let x ← fill .name text g.name (some text)
    return { g with name := x }
  | .output => do
    let x ← fill .output text g.output ([Output.json, .yaml].find? (·.name = text))
    return { g with output := x }
  | .primitiveListParams => do
    let x ← fill .primitiveListParams text g.primitiveListParams
      (if text = "true" then some true else if text = "false" then some false else none)
    return { g with primitiveListParams := x }
  | .collectionFormat => do
    let x ← fill .collectionFormat text g.collectionFormat
      (CollectionFormat.all.find? (·.name = text))
    return { g with collectionFormat := x }

/-- Whether an option is given. -/
def has (g : Given) : Flag → Bool
  | .input => g.input.isSome
  | .name => g.name.isSome
  | .output => g.output.isSome
  | .primitiveListParams => g.primitiveListParams.isSome
  | .collectionFormat => g.collectionFormat.isSome

/-- Takes the options that are not given from the environment. -/
def complete (environment : String → Option String) (g : Given) : Except Misuse Given :=
  Flag.general.foldlM (fun g flag =>
    match g.has flag, flag.environmentName?.bind environment with
    | false, some text => g.set text flag
    | _, _ => .ok g) g

/-- The values of one place, and where it has none those of another. -/
def orElse (g other : Given) : Given where
  input := g.input.or other.input
  name := g.name.or other.name
  output := g.output.or other.output
  primitiveListParams := g.primitiveListParams.or other.primitiveListParams
  collectionFormat := g.collectionFormat.or other.collectionFormat

end Given

/-! ## Places -/

/-- What ends the options of a place. -/
inductive Stop where
  /-- The end of the command line. -/
  | done
  /-- A plain word, and the words after it. -/
  | word (text : String) (rest : List String)
  | help
  | version
  deriving DecidableEq, Repr

/-- Where options stand, and which are known there. -/
structure Place where
  flags : List Flag
  /-- Whether the version may be asked for. -/
  hasVersion : Bool

/-- What a letter asks for instead of a command. -/
def Place.letter? (place : Place) (c : Char) : Option Stop :=
  if c = 'h' then some .help
  else if place.hasVersion && c = 'V' then some .version
  else none

/-- What an option without a value asks for instead of a command. -/
def Place.switch? (place : Place) (name : String) : Option Stop :=
  if name = "help" then some .help
  else if place.hasVersion && name = "version" then some .version
  else none

/-- Reads the options of a place. -/
def readOptions (place : Place) : List String → Given → Except Misuse (Given × Stop)
  | [], g => .ok (g, .done)
  | w :: rest, g =>
    match Word.ofString w with
    | .plain text => .ok (g, .word text rest)
    | .endOfOptions =>
      match rest with
      | [] => .ok (g, .done)
      | next :: _ => .error (.unexpected next)
    | .letters c _ =>
      match place.letter? c with
      | some stop => .ok (g, stop)
      | none => .error (.unexpected w)
    | .option name value =>
      match place.flags.find? (·.text = name) with
      | none =>
        match (if value.isSome then none else place.switch? name) with
        | some stop => .ok (g, stop)
        | none => .error (.unexpected w)
      | some flag =>
        match value with
        | some text => (g.set text flag).bind (readOptions place rest)
        | none =>
          match rest with
          | [] => .error (.missingValue flag)
          | next :: rest' =>
            match Word.ofString next with
            | .plain text => (g.set text flag).bind (readOptions place rest')
            | _ => .error (.missingValue flag)

/-! ## Whole command lines -/

/-- A command. -/
inductive Command where
  /-- Writes the parameters of a mapping of this name. -/
  | parameters (name : String)
  /-- Writes the definitions of a mapping. -/
  | definitions
  deriving DecidableEq, Repr

/-- What to do with a mapping file. -/
structure Request where
  command : Command
  /-- The path of the file. -/
  input : String
  output : Output
  settings : Settings
  deriving DecidableEq, Repr

/-- What a command line asks for. -/
inductive Invocation where
  | request (r : Request)
  | help
  | version
  deriving DecidableEq, Repr

/-- The place before the name of the command. -/
def Place.front : Place := ⟨Flag.general, true⟩

/-- The place after the name of the command. -/
def Place.after (own : List Flag) : Place := ⟨.input :: own ++ Flag.general, false⟩

/-- The request of a command, of the values given in both places. -/
def Request.ofGiven (command : Given → Command) (environment : String → Option String)
    (front after : Given) : Except Misuse Request := do
  let front' ← front.complete environment
  let after' ← after.complete environment
  let g := after.orElse (front.orElse (after'.orElse front'))
  match g.input with
  | none => .error .missingInput
  | some path =>
    return {
      command := command g
      input := path
      output := g.output.getD .json
      settings := {
        primitiveListParams := g.primitiveListParams.getD true
        collectionFormat := g.collectionFormat } }

/-- Reads the words after the name of a command. -/
def readCommand (own : List Flag) (command : Given → Command)
    (environment : String → Option String) (front : Given) (words : List String) :
    Except Misuse Invocation := do
  match ← readOptions (.after own) words {} with
  | (_, .help) => return .help
  | (_, .version) => return .version
  | (_, .word text _) => .error (.unexpected text)
  | (after, .done) => .request <$> Request.ofGiven command environment front after

/-- The words that name a command. -/
def commandNames : List String := ["parameters", "definitions", "help"]

/-- Reads the words after `help`: at most the name of a command, as no command has commands of its
own. -/
def readTopic : List String → Except Misuse Invocation
  | [] => .ok .help
  | name :: rest =>
    if !commandNames.contains name then .error (.unexpected name)
    else
      match rest with
      | [] => .ok .help
      | next :: _ => .error (.unexpected next)

/-- Reads a command line, given the variables of the environment. -/
def Invocation.ofWords (environment : String → Option String) (words : List String) :
    Except Misuse Invocation := do
  match ← readOptions .front words {} with
  | (_, .help) => return .help
  | (_, .version) => return .version
  | (_, .done) => .error .missingCommand
  | (front, .word text rest) =>
    match text with
    | "parameters" =>
      readCommand [.name] (fun g => .parameters (g.name.getD "")) environment front rest
    | "definitions" => readCommand [] (fun _ => .definitions) environment front rest
    | "help" => readTopic rest
    | _ => .error (.unexpected text)

end FieldSchema.CommandLine
