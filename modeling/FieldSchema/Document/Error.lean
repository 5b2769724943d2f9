import FieldSchema.Document.Problem

/-!
# Why a mapping document is refused

The causes for which a document gives no mapping, and their texts. A node whose children do not fit
its type is named by its path from the root.
-/

namespace FieldSchema.Document

/-- A step from a node to a child. -/
inductive Step where
  | field (name : String)
  | element
  deriving DecidableEq, Repr

/-- The way from the root to a node. -/
abbrev Path := List Step

namespace Path

/-- Adds a step to the text of a path: `[]` for the element of a list, and a dot before the name of
a field, unless nothing stands before it. -/
def addStep (text : String) : Step → String
  | .element => text ++ "[]"
  | .field name => if text = "" then name else text ++ "." ++ name

/-- The text of a path. -/
def text (p : Path) : String := p.foldl addStep ""

/-- The text of a path in a message, where the root has a name. -/
def shown (p : Path) : String := if text p = "" then "<root>" else text p

end Path

/-- How the children of a node do not fit its type. -/
inductive Misfit where
  | listWithFields
  | listWithoutItems
  | objectWithItems
  | objectWithoutFields
  | scalarWithChildren
  deriving DecidableEq, Repr

/-- A misfit, in words. -/
def Misfit.reason : Misfit → String
  | .listWithFields => "a list cannot declare fields"
  | .listWithoutItems => "a list needs items"
  | .objectWithItems => "an object cannot declare items"
  | .objectWithoutFields => "an object needs fields"
  | .scalarWithChildren => "a scalar cannot declare items or fields"

/-- A cause for which a document gives no mapping. -/
inductive Error where
  | json (fault : Fault)
  | yaml (fault : Fault)
  | misfit (path : Path) (misfit : Misfit)
  /-- There is no such file. -/
  | notFound
  /-- The bytes of the file are no text. -/
  | notText
  deriving DecidableEq

/-- The text of a cause, if it is stable. -/
def Error.message? : Error → Option String
  | .json fault => (fault.message? .json).map ("JSON Error: " ++ ·)
  | .yaml fault => (fault.message? .yaml).map ("YAML Error: " ++ ·)
  | .misfit path m => some ("Invalid mapping: " ++ path.shown ++ ": " ++ m.reason)
  | .notFound => some "NotFound"
  | .notText => some "InvalidData"

end FieldSchema.Document
