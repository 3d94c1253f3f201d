import ModBuild.Json.Token

/-!
# Reading JSON

The tokens of a document are read from left to right with a stack of the arrays and objects that are
still open. A key that comes again replaces the earlier value; objects keep their keys in order.
-/

namespace ModBuild.Json

/-- The value of a key, in order of the keys. -/
def insertField (key : String) (value : Json) :
    List (String × Json) → List (String × Json)
  | [] => [(key, value)]
  | (k, v) :: fields =>
    if key < k then (key, value) :: (k, v) :: fields
    else if key = k then (key, value) :: fields
    else (k, v) :: insertField key value fields

/-- An array or object that is still open. -/
inductive Frame
  /-- The items so far, the last one first. -/
  | items (done : List Json)
  /-- The fields so far, and the key whose value comes next. -/
  | fields (done : List (String × Json)) (key : String)
  deriving Repr

/-- Deeper nesting is refused. -/
def maxDepth : Nat := 127

mutual

/-- Reads on where a value is expected. -/
def readValue (stack : List Frame) : List Token → Option Json
  | .word v :: ts => readAfter v stack ts
  | .text s :: ts => readAfter (string s) stack ts
  | .openBracket :: .closeBracket :: ts =>
    if stack.length < maxDepth then readAfter (array []) stack ts else none
  | .openBracket :: ts =>
    if stack.length < maxDepth then readValue (.items [] :: stack) ts else none
  | .openBrace :: .closeBrace :: ts =>
    if stack.length < maxDepth then readAfter (object []) stack ts else none
  | .openBrace :: .text key :: .colon :: ts =>
    if stack.length < maxDepth then readValue (.fields [] key :: stack) ts else none
  | _ => none

/-- Reads on after a value. -/
def readAfter (v : Json) : List Frame → List Token → Option Json
  | [], [] => some v
  | .items done :: stack, .comma :: ts => readValue (.items (v :: done) :: stack) ts
  | .items done :: stack, .closeBracket :: ts => readAfter (array (v :: done).reverse) stack ts
  | .fields done key :: stack, .comma :: .text next :: .colon :: ts =>
    readValue (.fields (insertField key v done) next :: stack) ts
  | .fields done key :: stack, .closeBrace :: ts =>
    readAfter (object (insertField key v done)) stack ts
  | _, _ => none

end

/-- The value of a document. -/
def parse? (text : String) : Option Json := (Token.scan? text.toList).bind (readValue [])

end ModBuild.Json
