import BlockScript.Text.Invisible

/-!
# Quoted text in messages

Messages show a text between double quotes, with escapes for the quote, the backslash and every
character that cannot be seen.

## What is here

* `Text.quotedChar` — one character between quotes.
* `Text.quoted` — a whole text with its quotes.
-/

set_option autoImplicit false
namespace BlockScript.Text

/-- A character as it is shown between double quotes. -/
def quotedChar (c : Char) : List Char :=
  if c = '\x00' then ['\\', '0']
  else if c = '\t' then ['\\', 't']
  else if c = '\n' then ['\\', 'n']
  else if c = '\r' then ['\\', 'r']
  else if c = '\\' then ['\\', '\\']
  else if c = '\x22' then ['\\', c]
  else if isInvisible c then
    ['\\', 'u', '\x7b'] ++ Nat.toDigits 16 c.toNat ++ ['\x7d']
  else [c]

/-- A text between double quotes. -/
def quoted (text : String) : String :=
  String.ofList ('\x22' :: text.toList.flatMap quotedChar ++ ['\x22'])

end BlockScript.Text
