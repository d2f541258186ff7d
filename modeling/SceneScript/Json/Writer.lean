import SceneScript.Json.Basic

/-!
# Writing JSON

A value is written on one line, or with one item a line and two blanks for each level.  In a text only
the quote, the backslash and the characters below the space are escaped.

Each function takes the characters `rest` that follow what it writes.
-/

namespace SceneScript.Json

/-- A hexadecimal digit in lower case. -/
def hexDigit (n : Nat) : Char := Nat.digitChar n

/-- One character of a text as it is written. -/
def escape (c : Char) : List Char :=
  if c = '"' then ['\\', '"']
  else if c = '\\' then ['\\', '\\']
  else if c = '\n' then ['\\', 'n']
  else if c = '\r' then ['\\', 'r']
  else if c = '\t' then ['\\', 't']
  else if c.toNat = 8 then ['\\', 'b']
  else if c.toNat = 12 then ['\\', 'f']
  else if c.toNat < 0x20 then
    ['\\', 'u', '0', '0', hexDigit (c.toNat / 16), hexDigit (c.toNat % 16)]
  else [c]

/-- A text between quotes, then `rest`; what stands for no text is written as an empty one. -/
def writeText (s : Option String) (rest : List Char) : List Char :=
  '"' :: ((s.getD "").toList.flatMap escape ++ '"' :: rest)

/-- The start of a line at that level, then `rest`; `rest` alone if all stands on one line. -/
def lineBreak (level : Option Nat) (rest : List Char) : List Char :=
  match level with
  | none => rest
  | some level => '\n' :: (List.replicate (2 * level) ' ' ++ rest)

/-- The mark between a key and its value, then `rest`. -/
def colon (level : Option Nat) (rest : List Char) : List Char :=
  match level with
  | none => ':' :: rest
  | some _ => ':' :: ' ' :: rest

/-- The level of the items of a value. -/
def deeper (level : Option Nat) : Option Nat := level.map (· + 1)

mutual

/-- A value that stands at a level, or on one line, then `rest`. -/
def write (level : Option Nat) : Json → List Char → List Char
  | .null, rest => "null".toList ++ rest
  | .bool true, rest => "true".toList ++ rest
  | .bool false, rest => "false".toList ++ rest
  | .number n, rest => n.text floatStyle.plusSign ++ rest
  | .text s, rest => writeText s rest
  | .array [], rest => '[' :: ']' :: rest
  | .array (x :: xs), rest =>
    '[' :: lineBreak (deeper level) (write (deeper level) x
      (writeItems (deeper level) xs (lineBreak level (']' :: rest))))
  | .object [], rest => '\x7b' :: '\x7d' :: rest
  | .object ((k, v) :: fields), rest =>
    '\x7b' :: lineBreak (deeper level) (writeText k (colon level (write (deeper level) v
      (writeFields (deeper level) fields (lineBreak level ('\x7d' :: rest))))))

/-- The items after the first, then `rest`. -/
def writeItems (level : Option Nat) : List Json → List Char → List Char
  | [], rest => rest
  | x :: xs, rest => ',' :: lineBreak level (write level x (writeItems level xs rest))

/-- The fields after the first, then `rest`. -/
def writeFields (level : Option Nat) : List (Option String × Json) → List Char → List Char
  | [], rest => rest
  | (k, v) :: fields, rest =>
    ',' :: lineBreak level (writeText k (colon level (write level v
      (writeFields level fields rest))))

end

/-- A value on one line. -/
def compact (j : Json) : String := String.ofList (write none j [])

/-- A value with one item a line. -/
def pretty (j : Json) : String := String.ofList (write (some 0) j [])

end SceneScript.Json
