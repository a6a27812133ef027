import CaseRegistry.Json.Token

/-!
Writing a JSON value: on one line without blanks, or over several lines with two blanks more for
each level.
-/
namespace CaseRegistry.Json

mutual

/-- The tokens of a value. -/
def tokens : Json → List Token
  | null => [.null]
  | bool value => [.bool value]
  | number value => [.number value]
  | string value => [.string value]
  | unreadable => [.garbled]
  | array elements => .openArray :: tokensOfElements elements ++ [.closeArray]
  | object fields => .openObject :: tokensOfFields fields ++ [.closeObject]

/-- Elements with commas between them. -/
def tokensOfElements : List Json → List Token
  | [] => []
  | [element] => tokens element
  | element :: next :: rest => tokens element ++ .comma :: tokensOfElements (next :: rest)

/-- Fields with commas between them. -/
def tokensOfFields : List (String × Json) → List Token
  | [] => []
  | [(name, value)] => .string name :: .colon :: tokens value
  | (name, value) :: next :: rest =>
    .string name :: .colon :: tokens value ++ .comma :: tokensOfFields (next :: rest)

end

/-- The value on one line. -/
def toChars (j : Json) : List Char := j.tokens.flatMap Token.toChars

def toString (j : Json) : String := String.ofList j.toChars

/-! ### Several lines -/

def newLine (level : Nat) : List Char := '\n' :: List.replicate (2 * level) ' '

mutual

def prettyChars (level : Nat) : Json → List Char
  | array [] => ['[', ']']
  | object [] => ['\x7b', '\x7d']
  | array (element :: rest) =>
    '[' :: newLine (level + 1) ++ prettyChars (level + 1) element
      ++ prettyElements (level + 1) rest ++ newLine level ++ [']']
  | object ((name, value) :: rest) =>
    '\x7b' :: newLine (level + 1) ++ (Token.string name).toChars ++ ':' :: ' '
      :: prettyChars (level + 1) value ++ prettyFields (level + 1) rest ++ newLine level ++ ['\x7d']
  | null => Token.null.toChars
  | bool value => (Token.bool value).toChars
  | number value => value.toChars
  | string value => (Token.string value).toChars
  | unreadable => Token.garbled.toChars

/-- The elements after the first. -/
def prettyElements (level : Nat) : List Json → List Char
  | [] => []
  | element :: rest =>
    ',' :: newLine level ++ prettyChars level element ++ prettyElements level rest

/-- The fields after the first. -/
def prettyFields (level : Nat) : List (String × Json) → List Char
  | [] => []
  | (name, value) :: rest =>
    ',' :: newLine level ++ (Token.string name).toChars ++ ':' :: ' ' :: prettyChars level value
      ++ prettyFields level rest

end

/-- The value over several lines. -/
def pretty (j : Json) : String := String.ofList (prettyChars 0 j)

end CaseRegistry.Json
