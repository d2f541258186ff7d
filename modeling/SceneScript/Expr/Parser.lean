import SceneScript.Expr.Basic
import SceneScript.Fault
import SceneScript.Symbols
import SceneScript.Text.Blank
import SceneScript.Text.Letter

/-!
# Reading expressions

Expressions are read by tiers of operators, from the weakest to the strongest:

    disjunction  or ||        chain, to the left
    conjunction  and &&       chain, to the left
    negation     not !        before its operand
    comparison   == != <= >= < >   at most once
    sum          + -          chain, to the left
    product      * / %        chain, to the left
    sign         -            before its operand
    primary      brackets, variables, literals

An assignment `@name = …` may stand at the top only.  Blanks may stand between tokens.

Each call has a budget, which the length of the text bounds: a call either goes to a stronger tier or
has taken a character.
-/

namespace SceneScript.Expr

/-- An operator as it is written. -/
inductive Token where
  /-- Must not be followed by a character of a name. -/
  | word (text : String)
  /-- Must not be followed by one of `notBefore`. -/
  | mark (text : String) (notBefore : List Char)

/-- Whether `cs` starts with a character that satisfies `p`. -/
def startsWith (p : Char → Bool) : List Char → Bool
  | [] => false
  | c :: _ => p c

/-- What follows the token and the blanks after it, if `cs` starts with the token. -/
def Token.eat? (cs : List Char) : Token → Option (List Char)
  | word text =>
    match Text.dropPrefix? text.toList cs with
    | some rest => if startsWith Text.isNameChar rest then none else some (Text.trimStart rest)
    | none => none
  | mark text notBefore =>
    match Text.dropPrefix? text.toList cs with
    | some rest => if startsWith notBefore.contains rest then none else some (Text.trimStart rest)
    | none => none

/-- The tiers of operators. -/
inductive Tier where
  | disjunction
  | conjunction
  | negation
  | comparison
  | sum
  | product
  | sign
  | primary
deriving DecidableEq

namespace Tier

/-- The next stronger tier. -/
def next : Tier → Tier
  | disjunction => conjunction
  | conjunction => negation
  | negation => comparison
  | comparison => sum
  | sum => product
  | product => sign
  | sign => primary
  | primary => primary

/-- The operators with two operands, in the order in which they are tried. -/
def operators : Tier → List (Token × BinaryOp)
  | disjunction => [(.word "or", .or), (.mark "||" [], .or)]
  | conjunction => [(.word "and", .and), (.mark "&&" [], .and)]
  | comparison =>
    [(.mark "==" [], .eq), (.mark "!=" [], .ne), (.mark "<=" [], .le), (.mark ">=" [], .ge),
      (.mark "<" [], .lt), (.mark ">" [], .gt)]
  | sum => [(.mark "+" [], .add), (.mark "-" [], .sub)]
  | product => [(.mark "*" [], .mul), (.mark "/" [], .div), (.mark "%" [], .rem)]
  | negation | sign | primary => []

/-- The operators that stand before their operand. -/
def leading : Tier → List Token
  | negation => [.word "not", .mark "!" ['=']]
  | sign => [.mark "-" []]
  | _ => []

/-- The operator of the tier with which `cs` starts, and what follows it. -/
def operator? (tier : Tier) (cs : List Char) : Option (BinaryOp × List Char) :=
  tier.operators.findSome? fun p => (p.1.eat? cs).map (p.2, ·)

/-- What follows the leading operator of the tier, if `cs` starts with one. -/
def leading? (tier : Tier) (cs : List Char) : Option (List Char) :=
  tier.leading.findSome? (Token.eat? cs)

/-- The expression that the leading operator of the tier makes of its operand. -/
def wrap : Tier → Expr → Expr
  | negation, e => .not e
  | sign, e => .neg e
  | _, e => e

end Tier

/-- An expression and what follows it. -/
abbrev Parsed := Except ExprFault (Expr × List Char)

/-- Reads a name. -/
def readName (cs : List Char) : Except ExprFault (String × List Char) :=
  match cs.takeWhile Text.isNameChar with
  | [] => .error .expectedName
  | name => .ok (String.ofList name, cs.dropWhile Text.isNameChar)

/-- Reads up to the character `close` and takes that too. -/
def readText (close : Char) (cs : List Char) : Parsed :=
  match cs.dropWhile (· != close) with
  | [] => .error (.unclosedText close)
  | _ :: rest => .ok (.literal (.text (String.ofList (cs.takeWhile (· != close)))), rest)

/-- Reads digits, and digits after a point if there is one. -/
def readNumber (cs : List Char) : Parsed :=
  let whole := cs.takeWhile Char.isDigit
  match cs.dropWhile Char.isDigit with
  | '.' :: rest =>
    .ok (.literal (.float (Decimal.nearest whole (rest.takeWhile Char.isDigit))),
      rest.dropWhile Char.isDigit)
  | rest =>
    match Decimal.toInt64? (Decimal.ofDigits whole) with
    | some n => .ok (.literal (.int n), rest)
    | none => .error (.badNumber (String.ofList whole))

/-- Reads a primary expression without brackets, which starts with `c`. -/
def readAtom (sym : Symbols) (c : Char) (rest : List Char) : Parsed :=
  if c = sym.reference then
    match readName rest with
    | .error fault => .error fault
    | .ok (name, rest) => .ok (.var name, rest)
  else if c = '"' ∨ c = '\'' then readText c rest
  else if c = sym.openQuote then readText sym.closeQuote rest
  else
    match Token.eat? (c :: rest) (.word "true"), Token.eat? (c :: rest) (.word "false") with
    | some rest, _ => .ok (.literal (.bool true), rest)
    | none, some rest => .ok (.literal (.bool false), rest)
    | none, none => if c.isDigit then readNumber (c :: rest) else .error (.unexpected c)

/-- The bracket that closes `c`, if `c` opens one. -/
def closing? (sym : Symbols) (c : Char) : Option Char :=
  if c = '(' then some ')' else if c = sym.openBracket then some sym.closeBracket else none

mutual

/-- Reads an expression of the tier. -/
def readTier (sym : Symbols) : Nat → Tier → List Char → Parsed
  | 0, _, _ => .error .unexpectedEnd
  | fuel + 1, tier, cs =>
    match tier with
    | .disjunction | .conjunction | .sum | .product =>
      match readTier sym fuel tier.next cs with
      | .error fault => .error fault
      | .ok (left, rest) => readChain sym fuel tier left rest
    | .negation | .sign =>
      match tier.leading? (Text.trimStart cs) with
      | none => readTier sym fuel tier.next (Text.trimStart cs)
      | some rest =>
        match readTier sym fuel tier rest with
        | .error fault => .error fault
        | .ok (e, rest) => .ok (tier.wrap e, rest)
    | .comparison =>
      match readTier sym fuel .sum cs with
      | .error fault => .error fault
      | .ok (left, rest) =>
        match tier.operator? (Text.trimStart rest) with
        | none => .ok (left, Text.trimStart rest)
        | some (op, rest) =>
          match readTier sym fuel .sum rest with
          | .error fault => .error fault
          | .ok (right, rest) => .ok (.binary op left right, rest)
    | .primary =>
      match Text.trimStart cs with
      | [] => .error .unexpectedEnd
      | c :: rest =>
        match closing? sym c with
        | none => readAtom sym c rest
        | some close =>
          match readTier sym fuel .disjunction rest with
          | .error fault => .error fault
          | .ok (e, rest) =>
            match Text.trimStart rest with
            | [] => .error (.missingBracket close)
            | d :: rest => if d = close then .ok (e, rest) else .error (.missingBracket close)

/-- Reads the operators of the tier and their right operands, while there are any. -/
def readChain (sym : Symbols) : Nat → Tier → Expr → List Char → Parsed
  | 0, _, _, _ => .error .unexpectedEnd
  | fuel + 1, tier, left, cs =>
    match tier.operator? (Text.trimStart cs) with
    | none => .ok (left, Text.trimStart cs)
    | some (op, rest) =>
      match readTier sym fuel tier.next rest with
      | .error fault => .error fault
      | .ok (right, rest) => readChain sym fuel tier (.binary op left right) rest

end

/-- Enough for every call on a text of that length. -/
def budget (cs : List Char) : Nat := 10 * (cs.length + 1)

/-- Reads an expression without assignment. -/
def readOperand (sym : Symbols) (cs : List Char) : Parsed :=
  readTier sym (budget cs) .disjunction cs

/-- Reads an assignment, or an expression without one. -/
def readTop (sym : Symbols) (cs : List Char) : Parsed :=
  match cs with
  | [] => readOperand sym cs
  | c :: rest =>
    if c = sym.reference then
      match readName rest with
      | .error fault => .error fault
      | .ok (name, rest) =>
        match Token.eat? (Text.trimStart rest) (.mark "=" ['=']) with
        | none => readOperand sym cs
        | some rest =>
          match readOperand sym rest with
          | .error fault => .error fault
          | .ok (value, rest) => .ok (.assign name value, rest)
    else readOperand sym cs

/-- Reads a whole text without blanks at its ends. -/
def readAll (sym : Symbols) (cs : List Char) : Except ExprFault Expr :=
  if cs.isEmpty then .error .empty
  else
    match readTop sym cs with
    | .error fault => .error fault
    | .ok (e, rest) =>
      match Text.trimStart rest with
      | [] => .ok e
      | rest => .error (.trailing (String.ofList rest))

/-- The expression that a text spells. -/
def parse (sym : Symbols) (text : String) : Except Fault Expr :=
  let cs := Text.trim text.toList
  match readAll sym cs with
  | .error fault => .error (.invalidExpr (String.ofList cs) fault)
  | .ok e => .ok e

end SceneScript.Expr
