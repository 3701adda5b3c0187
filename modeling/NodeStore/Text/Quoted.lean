import NodeStore.Bytes.Hex
import NodeStore.Text.Printable

/-!
Text in double quotes, with escapes for quotes, backslashes and all that does
not print.
-/

namespace NodeStore.Text

/-- The escape of one character, or the character itself. -/
def escape (c : Char) : List Char :=
  match c with
  | '\x00' => ['\\', '0']
  | '\t' => ['\\', 't']
  | '\r' => ['\\', 'r']
  | '\n' => ['\\', 'n']
  | '"' => ['\\', '"']
  | '\\' => ['\\', '\\']
  | c =>
      if isPrintable c then [c]
      else '\\' :: 'u' :: '\x7b' :: (Nat.toDigits 16 c.toNat) ++ ['\x7d']

def quote (text : String) : String :=
  String.ofList ('"' :: text.toList.flatMap escape ++ ['"'])

end NodeStore.Text
