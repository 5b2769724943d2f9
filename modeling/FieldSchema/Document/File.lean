import FieldSchema.Document.Json
import FieldSchema.Document.Yaml

/-!
# Mapping files

The format of a document is told by the name of its file: the extension `json` stands for JSON, and
any other name for YAML. The bytes must be UTF-8.
-/

namespace FieldSchema.Document

/-- The format of a document. -/
inductive Format where
  | json
  | yaml
  deriving DecidableEq, Repr

/-- The last part of a path. -/
def fileName (path : String) : List Char :=
  ((path.toList.reverse).takeWhile (· ≠ '/')).reverse

/-- The part of a file name after its last dot. A name with no dot but its first character has no
extension. -/
def extension? (name : List Char) : Option (List Char) :=
  let rest := name.reverse.dropWhile (· ≠ '.')
  if rest.length ≤ 1 then none else some (name.drop rest.length)

/-- The format that the name of a file tells. -/
def Format.ofPath (path : String) : Format :=
  if extension? (fileName path) = some ['j', 's', 'o', 'n'] then .json else .yaml

/-- The mapping that a text holds. -/
def mappingOfText : Format → String → Except Error Mapping
  | .json => mappingOfJson
  | .yaml => mappingOfYaml

/-- The mapping that a file holds, given its path and its bytes. -/
def mappingOfFile (path : String) : Option ByteArray → Except Error Mapping
  | none => .error .notFound
  | some bytes =>
    match String.fromUTF8? bytes with
    | some text => mappingOfText (.ofPath path) text
    | none => .error .notText

end FieldSchema.Document
