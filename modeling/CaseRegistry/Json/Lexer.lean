import CaseRegistry.Json.Token

/-!
Cutting a JSON text into tokens, character by character. A machine with four states does it:
between tokens, in a word, in a string, and behind a backslash in a string. A word ends where a
blank, a punctuation mark or a quote begins.
-/
namespace CaseRegistry.Json.Lexer

/-- Where in the text the machine is. The characters of an open token are held last first. -/
inductive Place where
  | between
  | word (read : List Char)
  | text (read : List Char)
  | escaped (read : List Char)
deriving DecidableEq

/-- A place, and the tokens cut off so far, last first. -/
structure State where
  place : Place
  tokens : List Token

def isBlank (c : Char) : Bool := c == ' ' || c == '\t' || c == '\n' || c == '\r'

def punctuation? : Char → Option Token
  | '[' => some .openArray
  | ']' => some .closeArray
  | '\x7b' => some .openObject
  | '\x7d' => some .closeObject
  | ',' => some .comma
  | ':' => some .colon
  | _ => none

/-- Reads a character that belongs to no open token. -/
def start (tokens : List Token) (c : Char) : State :=
  if isBlank c then ⟨.between, tokens⟩
  else match punctuation? c with
    | some token => ⟨.between, token :: tokens⟩
    | none => if c = '"' then ⟨.text [], tokens⟩ else ⟨.word [c], tokens⟩

/-- Whether a character ends a word. -/
def endsWord (c : Char) : Bool := isBlank c || (punctuation? c).isSome || c == '"'

def step (s : State) (c : Char) : Option State :=
  match s.place with
  | .between => some (start s.tokens c)
  | .word read =>
    if endsWord c then (word? read.reverse).map fun token => start (token :: s.tokens) c
    else some ⟨.word (c :: read), s.tokens⟩
  | .text read =>
    if c = '"' then
      (quoted? read.reverse).map fun token => ⟨.between, token :: s.tokens⟩
    else if c = '\\' then some ⟨.escaped (c :: read), s.tokens⟩
    else some ⟨.text (c :: read), s.tokens⟩
  | .escaped read => some ⟨.text (c :: read), s.tokens⟩

/-- The tokens at the end of the text, in their order. An open string has no end. -/
def finish (s : State) : Option (List Token) :=
  match s.place with
  | .between => some s.tokens.reverse
  | .word read => (word? read.reverse).map fun token => (token :: s.tokens).reverse
  | .text _ | .escaped _ => none

def tokens? (cs : List Char) : Option (List Token) :=
  (cs.foldlM step ⟨.between, []⟩).bind finish

end CaseRegistry.Json.Lexer
