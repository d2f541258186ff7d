import SceneScript.Text.Visible

/-!
# Quoted text

A text is shown between double quotes.  The double quote and the backslash take a backslash, line feed,
carriage return, tab and the null character have escapes of one letter, and every other character
that is not visible becomes `\u{…}` with its code point in lower-case hexadecimal digits.
-/

namespace SceneScript.Text

/-- The lower-case hexadecimal digits of `n`. -/
def hexDigits (n : Nat) : List Char := Nat.toDigits 16 n

/-- One character as it stands inside a quoted text. -/
def escape (c : Char) : List Char :=
  if c = '"' then ['\\', '"']
  else if c = '\\' then ['\\', '\\']
  else if c = '\n' then ['\\', 'n']
  else if c = '\r' then ['\\', 'r']
  else if c = '\t' then ['\\', 't']
  else if c.toNat = 0 then ['\\', '0']
  else if isVisible c then [c]
  else "\\u\x7b".toList ++ hexDigits c.toNat ++ "\x7d".toList

/-- The text between double quotes. -/
def quoted (s : String) : String :=
  String.ofList ('"' :: s.toList.flatMap escape ++ ['"'])

end SceneScript.Text
