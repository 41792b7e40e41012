import HostSubnets.Text.Shown

/-!
# Quoted text for messages

* `escape` : how one character is written between double quotes;
* `quote` : a text between double quotes. A quote and a backslash follow a backslash, line feed,
  carriage return, tabulator and NUL have letters, and every other character without a visible form
  is written by its code point in hexadecimal.
-/

namespace HostSubnets.Text

/-- The written form of a character between double quotes. -/
def escape (c : Char) : List Char :=
  match c with
  | '\x00' => ['\\', '0']
  | '\t' => ['\\', 't']
  | '\n' => ['\\', 'n']
  | '\r' => ['\\', 'r']
  | '\x22' => ['\\', '\x22']
  | '\x5c' => ['\\', '\\']
  | c => if isShown c then [c] else ['\\', 'u', '\x7b'] ++ Nat.toDigits 16 c.toNat ++ ['\x7d']

def quote (s : String) : String :=
  String.ofList ('\x22' :: s.toList.flatMap escape ++ ['\x22'])

end HostSubnets.Text
