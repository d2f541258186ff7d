import SceneScript.Symbols

/-!
# Languages

A language gives the words for the keywords and directives and the symbols around them.  What a keyword
means and how many arguments it takes is the same in every language.
-/

namespace SceneScript

/-- What a statement does. -/
inductive Keyword where
  | ifThen
  | otherwise
  | endIf
  | action
  | entry
  | bind
  | unbind
  | ret
  | stop
  | yield
  | compute
deriving DecidableEq

/-- How much may follow a keyword. -/
inductive Arity where
  /-- Nothing. -/
  | nothing
  /-- The rest of the line, which must not be blank. -/
  | single
  /-- The rest of the line, or nothing. -/
  | optional
deriving DecidableEq

namespace Keyword

/-- The name in messages that do not depend on a language. -/
def name : Keyword → String
  | ifThen => "if"
  | otherwise => "else"
  | endIf => "end"
  | action => "action"
  | entry => "entry"
  | bind => "bind"
  | unbind => "unbind"
  | ret => "return"
  | stop => "stop"
  | yield => "yield"
  | compute => "compute"

def arity : Keyword → Arity
  | ifThen | action | entry | bind | compute => .single
  | otherwise | endIf | ret | stop => .nothing
  | unbind | yield => .optional

end Keyword

/-- What a directive declares. -/
inductive DirectiveKind where
  /-- The file name of the program. -/
  | file
  /-- Names of inputs. -/
  | input
deriving DecidableEq

/-- The words and symbols of scripts. -/
structure Language where
  name : String
  symbols : Symbols
  keywords : List (String × Keyword)
  directives : List (String × DirectiveKind)

/-- The value of the last pair with the key `k`. -/
def lastFor {α : Type} (k : String) (pairs : List (String × α)) : Option α :=
  (pairs.reverse.find? fun p => p.1 == k).map Prod.snd

namespace Language

def english : Language where
  name := "Default"
  symbols := .english
  keywords :=
    [("if", .ifThen), ("else", .otherwise), ("end", .endIf), ("action", .action), ("entry", .entry),
      ("bind", .bind), ("unbind", .unbind), ("return", .ret), ("stop", .stop), ("yield", .yield),
      ("calcu", .compute)]
  directives := [("file", .file), ("input", .input)]

def chinese : Language where
  name := "Chinese"
  symbols := .chinese
  keywords :=
    [("如果", .ifThen), ("否则", .otherwise), ("结束", .endIf), ("行为", .action), ("进入", .entry),
      ("绑定", .bind), ("解绑", .unbind), ("返回", .ret), ("终止", .stop), ("让步", .yield),
      ("计算", .compute)]
  directives := [("文件", .file), ("输入", .input)]

/-- The language of that name; case does not matter for ASCII letters. -/
def ofName? (name : String) : Option Language :=
  let lower := String.ofList (name.toList.map Char.toLower)
  if lower ∈ ["default", "en", "english"] then some english
  else if lower ∈ ["zh", "cn", "chinese"] then some chinese
  else none

/-- The keyword that `word` stands for; of two entries for a word the later one counts. -/
def keyword? (lang : Language) (word : String) : Option Keyword := lastFor word lang.keywords

/-- The kind of directive that `word` stands for. -/
def directive? (lang : Language) (word : String) : Option DirectiveKind :=
  lastFor word lang.directives

/-- The word for a keyword, if there is one. -/
def wordFor? (lang : Language) (k : Keyword) : Option String :=
  (lang.keywords.find? fun p => p.2 = k && lang.keyword? p.1 = some k).map Prod.fst

end Language

end SceneScript
