import CaseRegistry.Json.Lexer
import CaseRegistry.Json.Magnitude

/-!
Reading a JSON text. The tokens are taken one after the other by a machine that holds the arrays
and objects still open, innermost first. A text is read only if it is one value and nothing more.
What is spelled by the rules and cannot be read is noted as such in the value, and only who reads
there will stumble over it; so arrays and objects may nest as deep as they like where nothing is
read.
-/
namespace CaseRegistry.Json.Reader

/-- An array or object that is still open, with what it holds so far, last first. This is lost if
the array or object cannot be read, and its spelling is followed all the same. -/
inductive Frame where
  | array (elements : Option (List Json))
  | object (fields : Option (List (String × Json))) (name : Option String)

/-- What may come next. -/
inductive State where
  /-- A value. -/
  | value (stack : List Frame)
  /-- The first element of an array, or its end. -/
  | firstElement (stack : List Frame)
  /-- The first name of an object, or its end. -/
  | firstName (stack : List Frame)
  /-- A name, after a comma. -/
  | name (stack : List Frame) (fields : Option (List (String × Json)))
  /-- The colon after a name. -/
  | colon (stack : List Frame) (fields : Option (List (String × Json))) (name : Option String)
  /-- A comma, or the end of the array. -/
  | afterElement (stack : List Frame) (elements : Option (List Json))
  /-- A comma, or the end of the object. -/
  | afterField (stack : List Frame) (fields : Option (List (String × Json)))
  /-- Nothing more. -/
  | done (value : Json)

/-- Arrays and objects can be read that stand inside one another up to this depth. -/
def maxDepth : Nat := 127

/-- What an array or object holds at its beginning, with the given ones open around it. -/
def fresh {α : Type} (stack : List Frame) : Option (List α) :=
  if (stack.drop (maxDepth - 1)).isEmpty then some [] else none

def arrayOf : Option (List Json) → Json
  | some elements => .array elements.reverse
  | none => .unreadable

def objectOf : Option (List (String × Json)) → Json
  | some fields => .object fields.reverse
  | none => .unreadable

/-- Adds a field, unless the fields or its name are lost. -/
def addField (name : Option String) (value : Json) (fields : Option (List (String × Json))) :
    Option (List (String × Json)) :=
  match fields, name with
  | some fields, some name => some ((name, value) :: fields)
  | _, _ => none

/-- Hands a whole value to the innermost open array or object. -/
def close (value : Json) : List Frame → State
  | [] => .done value
  | .array elements :: stack => .afterElement stack (elements.map (value :: ·))
  | .object fields name :: stack => .afterField stack (addField name value fields)

/-- The token that begins a value, with the given arrays and objects open around it. -/
def beginValue (stack : List Frame) : Token → Option State
  | .null => some (close .null stack)
  | .bool value => some (close (.bool value) stack)
  | .number value => some (close (if value.isTooLarge then .unreadable else .number value) stack)
  | .string value => some (close (.string value) stack)
  | .garbled => some (close .unreadable stack)
  | .openArray => some (.firstElement stack)
  | .openObject => some (.firstName stack)
  | _ => none

def step : State → Token → Option State
  | .value stack, token => beginValue stack token
  | .firstElement stack, .closeArray => some (close (arrayOf (fresh stack)) stack)
  | .firstElement stack, token => beginValue (.array (fresh stack) :: stack) token
  | .firstName stack, .closeObject => some (close (objectOf (fresh stack)) stack)
  | .firstName stack, .string name => some (.colon stack (fresh stack) (some name))
  | .firstName stack, .garbled => some (.colon stack (fresh stack) none)
  | .name stack fields, .string name => some (.colon stack fields (some name))
  | .name stack fields, .garbled => some (.colon stack fields none)
  | .colon stack fields name, .colon => some (.value (.object fields name :: stack))
  | .afterElement stack elements, .comma => some (.value (.array elements :: stack))
  | .afterElement stack elements, .closeArray => some (close (arrayOf elements) stack)
  | .afterField stack fields, .comma => some (.name stack fields)
  | .afterField stack fields, .closeObject => some (close (objectOf fields) stack)
  | _, _ => none

def ofTokens? (tokens : List Token) : Option Json :=
  match tokens.foldlM step (.value []) with
  | some (.done value) => some value
  | _ => none

end Reader

/-- Reads a JSON text. -/
def ofString? (text : String) : Option Json :=
  (Lexer.tokens? text.toList).bind Reader.ofTokens?

end CaseRegistry.Json
