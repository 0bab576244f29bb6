import PartitionStore.Text.Combining
import PartitionStore.Text.Unprintable

/-!
# `PartitionStore.Text.Quoted`: names inside messages

A message quotes a name so that each character of it can be told: the quoted
form is readable text on one line, whatever the name holds.
-/

set_option autoImplicit false

namespace PartitionStore.Text

/-- The code point of a character in lower-case hexadecimal digits, between braces. -/
def escapeByNumber (c : Char) : List Char :=
  ['\\', 'u', '\x7b'] ++ Nat.toDigits 16 c.toNat ++ ['\x7d']

/-- A character as it stands in a quoted text: the double quote, the backslash
and the usual controls behind a backslash, other characters that do not show by
themselves by their number, and every other character as it is. -/
def escape : Char → List Char
  | '"' => ['\\', '"']
  | '\\' => ['\\', '\\']
  | '\n' => ['\\', 'n']
  | '\r' => ['\\', 'r']
  | '\t' => ['\\', 't']
  | c =>
    if c.toNat = 0 then ['\\', '0']
    else if isCombining c || isUnprintable c then escapeByNumber c
    else [c]

/-- The text between double quotes, with every character as `escape` writes it. -/
def quote (s : String) : String :=
  String.ofList ('"' :: s.toList.flatMap escape ++ ['"'])

end PartitionStore.Text
