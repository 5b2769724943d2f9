import FieldSchema.Binary64.Numeral

/-!
# Filters of messages

Which messages of the program are shown. A filter is a list of directives between commas. A directive
says how much is shown of the messages it is about: a level for everything, a target for which
everything is shown, or the two with an equals sign between them. Square brackets after the target or
in its place narrow a directive down, to messages with a field of a name or to those within a span.
What is no directive is passed over.

Of the directives that are about a message the most specific one decides, and of equally specific ones
the last (`decisive?`).
-/

namespace FieldSchema.CommandLine

/-- How much is shown. -/
inductive Level where
  | off
  | error
  | warn
  | info
  | debug
  | trace
  deriving DecidableEq, Repr

namespace Level

/-- All levels, from the least to the most. -/
def all : List Level := [.off, .error, .warn, .info, .debug, .trace]

/-- The name of a level. -/
def name : Level → String
  | .off => "off"
  | .error => "error"
  | .warn => "warn"
  | .info => "info"
  | .debug => "debug"
  | .trace => "trace"

/-- The number of a level. -/
def number : Level → Nat
  | .off => 0
  | .error => 1
  | .warn => 2
  | .info => 3
  | .debug => 4
  | .trace => 5

/-- The value of decimal digits after an optional plus sign. -/
def number? (s : String) : Option Nat :=
  let digits := match s.toList with
    | '+' :: r => r
    | cs => cs
  if digits.isEmpty || !digits.all Char.isDigit then none else some (digitsValue digits)

/-- The level of a name, in small or capital letters, or of a number. -/
def ofString? (s : String) : Option Level :=
  all.find? fun l => l.name = s.toLower || number? s = some l.number

/-- Whether messages of one level are shown at another. -/
def shows (shown message : Level) : Bool := message.number ≤ shown.number

end Level

/-- A message, as far as filters look at it. -/
structure Message where
  target : String
  /-- The names of its fields. -/
  fields : List String

/-- To which messages of a target a directive is narrowed down. -/
inductive Scope where
  | all
  /-- Those with a field of this name. -/
  | field (name : String)
  /-- Those within spans of a name, or of a value of a field. There are none, as no span is ever
  entered. -/
  | span
  deriving DecidableEq, Repr

/-- A directive: how much is shown of the targets whose name begins so. -/
structure Directive where
  target : String
  scope : Scope
  level : Level
  deriving DecidableEq, Repr

/-- Reads a scope after its opening bracket: the name of a span, or a field between braces, or both.
Gives what follows the closing bracket. -/
def Scope.read? (cs : List Char) : Option (Scope × List Char) :=
  let name := cs.takeWhile fun c => c ≠ ']' && c ≠ '\x7b'
  match cs.drop name.length with
  | ']' :: rest => some (.span, rest)
  | '\x7b' :: r =>
    let field := r.takeWhile (· ≠ '\x7d')
    match r.drop field.length with
    | '\x7d' :: ']' :: rest =>
      if field.isEmpty then none
      else if name.isEmpty && !field.contains '=' then some (.field (String.ofList field), rest)
      else some (.span, rest)
    | _ => none
  | _ => none

namespace Directive

/-- The level after the rest of a directive. Without a name of a level it is the greatest. -/
def levelOf? : List Char → Option Level
  | [] | ['='] => some .trace
  | '=' :: name => Level.ofString? (String.ofList name)
  | _ => none

/-- A directive for a target, read from the bracket or the level after it. -/
def afterTarget? (target : List Char) : List Char → Option Directive
  | '[' :: r => do
    let (scope, rest) ← Scope.read? r
    let level ← levelOf? rest
    return ⟨String.ofList target, scope, level⟩
  | rest => (levelOf? rest).map fun level => ⟨String.ofList target, .all, level⟩

/-- A character that a target may begin with. -/
def beginsTarget (c : Char) : Bool := c.isAlphanum || c = '-' || c = ':' || c = '_'

/-- The directive of a text. A level alone is for all targets. -/
def ofString? (s : String) : Option Directive :=
  let cs := s.toList
  let target := cs.takeWhile fun c => c ≠ '=' && c ≠ '['
  match target with
  | [] => if cs.head? = some '[' then afterTarget? [] cs else none
  | c :: _ =>
    if !beginsTarget c then none
    else
      match Level.ofString? s with
      | some level => some ⟨"", .all, level⟩
      | none => afterTarget? target (cs.drop target.length)

/-- Whether a directive is about a message. -/
def isAbout (d : Directive) (m : Message) : Bool :=
  d.target.toList.isPrefixOf m.target.toList &&
    match d.scope with
    | .all => true
    | .field name => m.fields.contains name
    | .span => false

/-- The name of the field to which a directive is narrowed down, if there is one. -/
def fieldName (d : Directive) : String :=
  match d.scope with
  | .field name => name
  | .all | .span => ""

/-- Whether a directive is at least as specific as another. The longer target is more specific; for
targets of one length a field is more specific than none, and of two fields the later in the
alphabet. -/
def isAtLeast (d other : Directive) : Bool :=
  other.target.length < d.target.length ||
    (other.target.length = d.target.length && !(d.fieldName < other.fieldName))

end Directive

/-- The directives of a filter. -/
def directivesOf (filter : String) : List Directive :=
  (filter.splitOn ",").filterMap Directive.ofString?

/-- The directive that decides about a message. -/
def decisive? (m : Message) (directives : List Directive) : Option Directive :=
  (directives.filter (·.isAbout m)).foldl (fun best d =>
    if best.all d.isAtLeast then some d else best) none

/-- How much a filter shows of messages like this one. A filter without directives shows errors. -/
def levelOf (filter : String) (m : Message) : Level :=
  match directivesOf filter with
  | [] => .error
  | ds => ((decisive? m ds).map Directive.level).getD .off

end FieldSchema.CommandLine
