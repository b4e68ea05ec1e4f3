import CidrTable.Json
import CidrTable.Binary64.Shortest

/-! Writing JSON text, without blanks.

Strings escape the quote, the backslash and the characters below the space. Binary
numbers are written with the fewest digits that read back, positionally from 10^-5 to
below 10^16 and always with a fraction or an exponent. -/
namespace CidrTable.Json

/-- How binary numbers are written. -/
def numberLayout : Binary64.Layout where
  least := -5
  bound := 16
  plus := true
  tie := .even

def numeral (x : Binary64) : String :=
  if x.isFinite then String.ofList (numberLayout.write x) else "null"

def stringChar (c : Char) : List Char :=
  match c with
  | '"' => ['\\', '"']
  | '\\' => ['\\', '\\']
  | '\x08' => ['\\', 'b']
  | '\x0c' => ['\\', 'f']
  | '\n' => ['\\', 'n']
  | '\r' => ['\\', 'r']
  | '\t' => ['\\', 't']
  | c => if c < ' ' then "\\u".toList ++ Text.hexadecimal 4 c.toNat else [c]

def stringText (s : String) : String :=
  String.ofList ('"' :: s.toList.flatMap stringChar ++ ['"'])

mutual

def render : Json → String
  | .null => "null"
  | .bool b => if b then "true" else "false"
  | .whole n => toString n
  | .real x => numeral x
  | .text s => stringText s
  | .array items => "[" ++ ",".intercalate (renderItems items) ++ "]"
  | .object fields => "\x7b" ++ ",".intercalate (renderFields fields) ++ "\x7d"

def renderItems : List Json → List String
  | [] => []
  | j :: rest => render j :: renderItems rest

def renderFields : List (String × Json) → List String
  | [] => []
  | (key, j) :: rest => (stringText key ++ ":" ++ render j) :: renderFields rest

end

end CidrTable.Json
