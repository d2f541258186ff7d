import SceneScript.Fault
import SceneScript.Symbols
import SceneScript.Text.Blank
import SceneScript.Value

/-!
# Arguments and calls

`splitArguments` cuts a text at the commas outside quotes and brackets and keeps the pieces as they are
written.  `Call.parse` reads `name(argument, …)`: the brackets are the first that opens and the last that
closes, a quoted argument is text, and any other argument is read by `Value.ofWord`.
-/

namespace SceneScript

/-- Why a list of arguments cannot be read. -/
inductive SplitFault where
  /-- A bracket closes nothing or stays open, or text stands beside a quoted argument. -/
  | unbalanced
  | unterminated
deriving DecidableEq

/-- The fault of a script in which `text` is the list of arguments. -/
def SplitFault.inText (text : List Char) : SplitFault → Fault
  | unbalanced => .unbalancedBracket (String.ofList text)
  | unterminated => .unterminatedQuote (String.ofList text)

/-- The segments between the commas outside quotes and brackets.  `quoted` tells whether a quote is
open, `depth` how many brackets are. -/
def segments (sym : Symbols) : Bool → Nat → List Char → Except SplitFault (List (List Char))
  | true, _, [] => .error .unterminated
  | false, 0, [] => .ok [[]]
  | false, _ + 1, [] => .error .unbalanced
  | true, depth, c :: cs =>
    (segments sym (c != sym.closeQuote) depth cs).map (Text.consHead c)
  | false, depth, c :: cs =>
    if c = sym.openQuote then (segments sym true depth cs).map (Text.consHead c)
    else if c = sym.openBracket then (segments sym false (depth + 1) cs).map (Text.consHead c)
    else if c = sym.closeBracket then
      match depth with
      | 0 => .error .unbalanced
      | depth + 1 => (segments sym false depth cs).map (Text.consHead c)
    else if c = sym.comma ∧ depth = 0 then (segments sym false 0 cs).map ([] :: ·)
    else (segments sym false depth cs).map (Text.consHead c)

/-- The arguments of a text, without blanks at their ends; a blank text has none. -/
def splitArguments (sym : Symbols) (text : String) : Except Fault (List String) :=
  let cs := Text.trim text.toList
  if cs.isEmpty then .ok []
  else
    match segments sym false 0 cs with
    | .error fault => .error (fault.inText cs)
    | .ok parts => .ok (parts.map fun part => String.ofList (Text.trim part))

/-- What has been read of an argument, latest character first. -/
inductive Argument where
  /-- No quote so far. -/
  | bare (text : List Char)
  /-- Inside the quotes. -/
  | inside (text : List Char)
  /-- After the closing quote. -/
  | closed (text : List Char)

/-- The values of a list of arguments, the first of which has been read in part.  A last argument that
is blank is left out. -/
def readArguments (sym : Symbols) : Argument → List Char → Except SplitFault (List Value)
  | .inside _, [] => .error .unterminated
  | .closed text, [] => .ok [.text (String.ofList text.reverse)]
  | .bare text, [] =>
    if text.all Text.isBlank then .ok []
    else .ok [.ofWord (String.ofList (Text.trim text.reverse))]
  | .inside text, c :: cs =>
    if c = sym.closeQuote then readArguments sym (.closed text) cs
    else readArguments sym (.inside (c :: text)) cs
  | .closed text, c :: cs =>
    if c = sym.comma then
      (readArguments sym (.bare []) cs).map (.text (String.ofList text.reverse) :: ·)
    else if Text.isBlank c then readArguments sym (.closed text) cs
    else .error .unbalanced
  | .bare text, c :: cs =>
    if c = sym.comma then
      (readArguments sym (.bare []) cs).map (.ofWord (String.ofList (Text.trim text.reverse)) :: ·)
    else if Text.isBlank c then readArguments sym (.bare (c :: text)) cs
    else if c = sym.openQuote then
      if text.all Text.isBlank then readArguments sym (.inside []) cs else .error .unbalanced
    else readArguments sym (.bare (c :: text)) cs

/-- The text before and after the first `b`. -/
def cutFirst (b : Char) (cs : List Char) : Option (List Char × List Char) :=
  match cs.dropWhile (· != b) with
  | [] => none
  | _ :: after => some (cs.takeWhile (· != b), after)

/-- The text before and after the last `b`. -/
def cutLast (b : Char) (cs : List Char) : Option (List Char × List Char) :=
  (cutFirst b cs.reverse).map fun p => (p.2.reverse, p.1.reverse)

/-- An action and its arguments. -/
structure Call where
  name : String
  args : List Value

/-- The call that a text spells. -/
def Call.parse (sym : Symbols) (text : String) : Except Fault Call :=
  let cs := Text.trim text.toList
  let unbalanced := Fault.unbalancedBracket (String.ofList cs)
  match cutFirst sym.openBracket cs, cutLast sym.closeBracket cs with
  | none, none => .ok ⟨String.ofList cs, []⟩
  | some (name, _), some (before, after) =>
    if name.length < before.length ∧ after.all Text.isBlank then
      let inner := Text.trim (before.drop (name.length + 1))
      if inner.isEmpty then .ok ⟨String.ofList (Text.trim name), []⟩
      else
        match readArguments sym (.bare []) inner with
        | .error fault => .error (fault.inText inner)
        | .ok args => .ok ⟨String.ofList (Text.trim name), args⟩
    else .error unbalanced
  | _, _ => .error unbalanced

end SceneScript
