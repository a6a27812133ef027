/-!
Blank text and lines. White space is the Unicode property `White_Space`; a text is blank when it
holds nothing else, which is when nothing is left of it once trimmed.
-/
namespace CaseRegistry.Text

/-- The code points of the Unicode property `White_Space`. -/
def isWhiteSpace (c : Char) : Bool :=
  let n := c.toNat
  (9 ≤ n && n ≤ 13) || n == 0x20 || n == 0x85 || n == 0xA0 || n == 0x1680
    || (0x2000 ≤ n && n ≤ 0x200A) || n == 0x2028 || n == 0x2029 || n == 0x202F || n == 0x205F
    || n == 0x3000

def isBlank (text : String) : Bool := text.toList.all isWhiteSpace

/-- A line without the carriage return it may end in. The line is given last character first. -/
def closeLine : List Char → List Char
  | '\r' :: rest => rest.reverse
  | read => read.reverse

/-- Cuts the lines off a text, `read` being the open line, last character first. -/
def linesFrom (read : List Char) : List Char → List (List Char)
  | [] => if read = [] then [] else [read.reverse]
  | '\n' :: rest => closeLine read :: linesFrom [] rest
  | c :: rest => linesFrom (c :: read) rest

/-- The lines of a text: each ends at a line feed, before which one carriage return is dropped,
and a last line without a line feed counts unless it is empty. -/
def lines (text : String) : List String := (linesFrom [] text.toList).map String.ofList

end CaseRegistry.Text
