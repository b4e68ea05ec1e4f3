import CidrTable.Text.Digits
import CidrTable.Text.Hidden

/-! Text quoted for a reader.

Messages, records and inspected values show a text between double quotes. The quote, the
backslash and the common controls take a letter after a backslash, hidden characters
their code point, and all others stand for themselves. -/
namespace CidrTable.Text

def quotedChar (c : Char) : List Char :=
  match c with
  | '\x00' => ['\\', '0']
  | '\t' => ['\\', 't']
  | '\r' => ['\\', 'r']
  | '\n' => ['\\', 'n']
  | '"' => ['\\', '"']
  | '\\' => ['\\', '\\']
  | c => if isHidden c then "\\u\x7b".toList ++ digits 16 c.toNat ++ ['\x7d'] else [c]

/-- A text between double quotes. -/
def quoted (s : String) : String :=
  String.ofList ('"' :: s.toList.flatMap quotedChar ++ ['"'])

end CidrTable.Text
