import FastPath.Text.Printable
import FastPath.Word

/-!
Names between double quotes, as summaries show them. Quotes, backslashes and characters that do
not print are escaped, the common ones by a letter and the others by their code point.
-/

namespace FastPath.Quoted

def escape (c : Char) : List Char :=
  match c with
  | '"' => ['\\', '"']
  | '\\' => ['\\', '\\']
  | '\n' => ['\\', 'n']
  | '\r' => ['\\', 'r']
  | '\t' => ['\\', 't']
  | '\x00' => ['\\', '0']
  | c =>
    if isPrintable c then [c]
    else ['\\', 'u', '\x7b'] ++ Nat.toDigits 16 c.toNat ++ ['\x7d']

def encode (s : String) : String := String.ofList ('"' :: s.toList.flatMap escape ++ ['"'])

end FastPath.Quoted
