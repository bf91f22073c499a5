import Coap.Text.Blank
import Coap.Text.DefaultIgnorable
import Coap.Text.GraphemeExtend
import Coap.Text.OtherCategory

/-! Texts quoted for a diagnostic: a quoted text stays on one line and shows what it holds. -/
namespace Coap.Text

/-- Lower-case hexadecimal digits without padding. -/
def hexNumeral (n : Nat) : List Char := Nat.toDigits 16 n

/-- Shown on the character before it. The two halfwidth sound marks of Katakana have
Grapheme_Extend, but each fills a cell of its own. -/
def isAttached (c : Char) : Bool := isGraphemeExtend c && !(c == '\uFF9E' || c == '\uFF9F')

/-- A reader sees the character itself, and not as a part of another. -/
def isVisible (c : Char) : Bool :=
  !(isOther c || isBlank c || isDefaultIgnorable c || isAttached c)

/-- Quote and backslash are escaped, four controls have letters, the space and what is visible
stand as they are, and the rest is written by number. -/
def quotedChar (c : Char) : List Char :=
  if c = '"' then ['\\', '"']
  else if c = '\\' then ['\\', '\\']
  else if c = '\t' then ['\\', 't']
  else if c = '\r' then ['\\', 'r']
  else if c = '\n' then ['\\', 'n']
  else if c = '\x00' then ['\\', '0']
  else if c = ' ' || isVisible c then [c]
  else ['\\', 'u', '\x7b'] ++ hexNumeral c.toNat ++ ['\x7d']

def quoted (s : String) : String :=
  String.ofList ('"' :: s.toList.flatMap quotedChar ++ ['"'])

end Coap.Text
