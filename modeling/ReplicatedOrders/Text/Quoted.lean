/-
Text in double quotes, as error messages show it: `"`, `\` and the common controls get a backslash, characters without
a glyph are shown by number, and everything else stands for itself.
-/
import ReplicatedOrders.Text.Unprintable

namespace ReplicatedOrders.Text

/-- a character by number: `\u`, then its lower-case hexadecimal digits in braces -/
def byNumber (c : Char) : List Char := '\\' :: 'u' :: '\x7b' :: Nat.toDigits 16 c.toNat ++ ['\x7d']

def quotedChar (c : Char) : List Char :=
  if c = '"' then ['\\', '"']
  else if c = '\\' then ['\\', '\\']
  else if c = '\n' then ['\\', 'n']
  else if c = '\r' then ['\\', 'r']
  else if c = '\t' then ['\\', 't']
  else if c = '\x00' then ['\\', '0']
  else if isUnprintable c then byNumber c
  else [c]

/-- the text between double quotes -/
def quoted (s : String) : String := String.ofList ('"' :: s.toList.flatMap quotedChar ++ ['"'])

example : quoted "a\"é\n\x7f" = "\"a\\\"é\\n\\u\x7b7f\x7d\"" := by decide +kernel

end ReplicatedOrders.Text
