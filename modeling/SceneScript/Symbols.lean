/-!
# Symbols

The characters that carry the surface syntax of scripts.  Two sets are in use, one with ASCII characters
and one with full-width characters.
-/

namespace SceneScript

/-- The characters with a meaning of their own. -/
structure Symbols where
  /-- Starts a statement, and ends the header of a section. -/
  keyword : Char
  /-- Starts a directive. -/
  directive : Char
  /-- Stands before the name of a variable. -/
  reference : Char
  /-- Starts a comment. -/
  comment : Char
  /-- A line that holds it is no directive. -/
  assign : Char
  /-- Starts the last line of a section. -/
  sectionEnd : String
  comma : Char
  openBracket : Char
  closeBracket : Char
  openQuote : Char
  closeQuote : Char
deriving DecidableEq

/-- The set with ASCII characters. -/
def Symbols.english : Symbols where
  keyword := ':'
  directive := '@'
  reference := '@'
  comment := '#'
  assign := '='
  sectionEnd := "end"
  comma := ','
  openBracket := '('
  closeBracket := ')'
  openQuote := '"'
  closeQuote := '"'

/-- The set with full-width characters. -/
def Symbols.chinese : Symbols where
  keyword := '：'
  directive := '@'
  reference := '@'
  comment := '#'
  assign := '='
  sectionEnd := "结束"
  comma := '，'
  openBracket := '（'
  closeBracket := '）'
  openQuote := '“'
  closeQuote := '”'

/-- Outside a section, a line that starts with one of these is a statement or a directive. -/
def Symbols.lineStarts (sym : Symbols) : List Char := [sym.keyword, sym.directive]

end SceneScript
