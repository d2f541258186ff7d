import SceneScript.Call
import SceneScript.Collect
import SceneScript.Language

/-!
# Statements

A line holds one statement: the keyword symbol, a keyword and what it applies to, or, starting with the
reference symbol, a computation.
-/

namespace SceneScript

/-- A keyword with its arguments, and the line it comes from. -/
structure Statement where
  keyword : Keyword
  args : List String
  line : String
deriving DecidableEq

namespace Statement

/-- A statement that no line of the script spells. -/
def implied (keyword : Keyword) : Statement := ⟨keyword, [], ""⟩

/-- The arguments that a keyword makes of the rest of its line, if it takes that many. -/
def takeArguments : Arity → List Char → Option (List String)
  | .nothing, rest => if rest.isEmpty then some [] else none
  | .single, rest => if rest.isEmpty then none else some [String.ofList rest]
  | .optional, rest => if rest.isEmpty then some [] else some [String.ofList rest]

/-- How many arguments stand in the rest of a line; one if they cannot be told apart. -/
def countArguments (sym : Symbols) (rest : List Char) : Nat :=
  match splitArguments sym (String.ofList rest) with
  | .ok args => args.length
  | .error _ => 1

/-- The number of arguments in a message. -/
def expected : Arity → Nat
  | .nothing => 0
  | .single | .optional => 1

/-- The statement of a line. -/
def parse (lang : Language) (line : String) : Except Fault Statement :=
  match line.toList with
  | [] => .error (.unrecognizedKeyword line)
  | c :: body =>
    if c = lang.symbols.reference then .ok ⟨.compute, [line], line⟩
    else if c = lang.symbols.keyword then
      let word := body.takeWhile fun d => !Text.isBlank d
      let rest := Text.trim (body.dropWhile fun d => !Text.isBlank d)
      if word.isEmpty then .error (.unrecognizedKeyword line)
      else
        match lang.keyword? (String.ofList word) with
        | none => .error (.unknownKeyword (String.ofList word) line)
        | some keyword =>
          match takeArguments keyword.arity rest with
          | some args => .ok ⟨keyword, args, line⟩
          | none =>
            .error (.wrongArgumentCount ((lang.wordFor? keyword).getD keyword.name)
              (expected keyword.arity) (countArguments lang.symbols rest) line)
    else .error (.unrecognizedKeyword line)

/-- The statements of all lines, or the first fault. -/
def parseAll (lang : Language) (lines : List String) : Except Fault (List Statement) :=
  collect (parse lang) lines

end Statement

/-- A named list of statements. -/
structure Block where
  name : String
  statements : List Statement
deriving DecidableEq

/-- The block with a statement of that keyword added, unless its last one is. -/
def Block.endingWith (b : Block) (keyword : Keyword) : Block :=
  if (b.statements.getLast?.map Statement.keyword) = some keyword then b
  else { b with statements := b.statements ++ [.implied keyword] }

end SceneScript
