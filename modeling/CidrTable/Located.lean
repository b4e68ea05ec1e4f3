import CidrTable.Text.Digits

/-! Messages with a place.

A reader of documents reports a failure as a text and the place where it arose. It takes
a place at the end of the text it is given for that place: `Located.ofString` takes the
place off, `Located.write` puts it back. Line zero is no place and is not written, so what
is written may be shorter than what was given. A reader that stands in a text of its own gives
a message without a place the one that it stands at (`Located.orBehind`). -/
namespace CidrTable

/-- A text and the place that it speaks of. -/
structure Located where
  text : String
  line : Nat
  column : Nat
  deriving DecidableEq

namespace Located

/-- The largest line or column. -/
def limit : Nat := 0xFFFFFFFFFFFFFFFF

/-- Takes a number and the word in front of it off the end of a text, which is given and
left in reverse. -/
def takeNumber? (word : String) (reversed : List Char) : Option (Nat × List Char) := do
  let n ← Text.ofDigits? 10 (reversed.takeWhile Char.isDigit).reverse
  let rest := reversed.dropWhile Char.isDigit
  let letters := word.toList.reverse
  guard (n ≤ limit && letters.isPrefixOf rest)
  some (n, rest.drop letters.length)

/-- The place at the end of a text and the text in front of it, if a place stands there. -/
def split? (s : String) : Option Located := do
  let (column, rest) ← takeNumber? " column " s.toList.reverse
  let (line, rest) ← takeNumber? " at line " rest
  some ⟨String.ofList rest.reverse, line, column⟩

/-- The message that a text is taken for. -/
def ofString (s : String) : Located := (split? s).getD ⟨s, 0, 0⟩

/-- The text with its place behind it. -/
def write (m : Located) : String :=
  if m.line = 0 then m.text
  else m.text ++ " at line " ++ toString m.line ++ " column " ++ toString m.column

def lineBehind (front : List Char) : Nat := front.count '\n' + 1

/-- The column behind the front of a text, in bytes. -/
def columnBehind (front : List Char) : Nat :=
  (String.ofList (front.reverse.takeWhile (· != '\n')).reverse).utf8ByteSize

/-- The message, with the place behind the front of a text if it has none of its own. -/
def orBehind (front : List Char) (m : Located) : Located :=
  if m.line = 0 then ⟨m.text, lineBehind front, columnBehind front⟩ else m

end Located

end CidrTable
