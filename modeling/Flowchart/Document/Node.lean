/-!
# Document nodes

The content of a document: texts, lists and maps. A scalar that is written without
quotes and spells nothing at all, or the word for it, is a null.
-/

namespace Flowchart.Document

inductive Node where
  | null (spelling : String)
  | text (value : String)
  | list (items : List Node)
  | map (entries : List (Node × Node))
deriving Repr

/-- The spellings of a null; an empty one stands for a missing node. -/
def isNullSpelling (s : String) : Bool :=
  s = "" || s = "~" || s = "null" || s = "Null" || s = "NULL"

/-- The node of a scalar. Only a plain one can be a null. -/
def Node.ofScalar (value : String) (plain : Bool) : Node :=
  if plain && isNullSpelling value then .null value else .text value

/-- The node in a place where nothing is written. -/
def Node.missing : Node := .null ""

end Flowchart.Document
