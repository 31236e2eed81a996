import Vr4300.Text.Hex
import Vr4300.Text.Unicode

/-!
# Quoted text

A text between quotes. Quotes, backslashes and characters that are not shown as themselves are
escaped: by a letter where there is one, else by the code point in hexadecimal between braces.
-/

namespace Vr4300.Text

/-- A character inside quotes. -/
def escape (c : Char) : List Char :=
  match c with
  | '\x00' => ['\\', '0']
  | '\t' => ['\\', 't']
  | '\n' => ['\\', 'n']
  | '\r' => ['\\', 'r']
  | '"' => ['\\', '"']
  | '\\' => ['\\', '\\']
  | _ => if isShown c then [c] else ['\\', 'u', '\x7b'] ++ hexDigits c.toNat ++ ['\x7d']

/-- A text between quotes. -/
def quote (s : String) : String :=
  String.ofList ('"' :: s.toList.flatMap escape ++ ['"'])

end Vr4300.Text
