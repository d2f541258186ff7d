/-!
# Faults

Why a script or an expression is rejected.  Every fault ends the compilation it arises in.
-/

namespace SceneScript

/-- Why a text is no expression. -/
inductive ExprFault where
  | empty
  /-- An expression ended and `rest` is left. -/
  | trailing (rest : String)
  | unexpectedEnd
  | missingBracket (close : Char)
  /-- No name follows the reference symbol. -/
  | expectedName
  | unclosedText (close : Char)
  /-- The digits stand for no 64-bit integer. -/
  | badNumber (digits : String)
  | unexpected (c : Char)
deriving DecidableEq

def ExprFault.message : ExprFault → String
  | empty => "空表达式"
  | trailing rest => s!"表达式末尾存在无法解析的内容: '{rest}'"
  | unexpectedEnd => "表达式意外结束"
  | missingBracket close => s!"缺少右括号 '{close}'"
  | expectedName => "期望标识符"
  | unclosedText close => s!"字符串字面量未闭合，缺少 '{close}'"
  | badNumber digits => s!"无法解析数字: '{digits}'"
  | unexpected c => s!"无法解析表达式，意外字符: '{c}'"

/-- Why a script is rejected. -/
inductive Fault where
  | unbalancedBracket (text : String)
  | unterminatedQuote (text : String)
  /-- No keyword where one is due. -/
  | unrecognizedKeyword (line : String)
  /-- The language has no such keyword. -/
  | unknownKeyword (keyword line : String)
  | wrongArgumentCount (keyword : String) (expected found : Nat) (line : String)
  | invalidExpr (text : String) (cause : ExprFault)
  | unterminatedSection (name : String)
  | mismatchedSectionEnd (expected found : String)
  | duplicateBlock (name : String)
  | unexpectedEnd (block : String) (position : Nat)
  | elseWithoutIf (block : String) (position : Nat)
  | duplicateElse (block : String) (position : Nat)
  | unclosedIf (block : String) (count : Nat)
  | noSuchBlock (name : String)
  | noSuchDirective (name : String)
  | missingDirectiveArgument (name : String)
  /-- A branch was lowered before it was linked. -/
  | unlinkedBranch (block : String) (index : Nat)
  | destinationOutOfRange (block : String) (index destination total : Nat)
  /-- A node that stands for no instruction was lowered. -/
  | markerEmitted (block : String) (index : Nat)
deriving DecidableEq

def Fault.message : Fault → String
  | unbalancedBracket text => s!"括号不配对: '{text}'"
  | unterminatedQuote text => s!"引号未闭合: '{text}'"
  | unrecognizedKeyword line => s!"无法识别关键字: '{line}'"
  | unknownKeyword keyword line => s!"未知关键字 '{keyword}': '{line}'"
  | wrongArgumentCount keyword expected found line =>
    s!"关键字 '{keyword}' 需要 {expected} 个参数，实际 {found} 个: '{line}'"
  | invalidExpr text cause =>
    let reason := cause.message
    s!"无效的表达式 '{text}': {reason}"
  | unterminatedSection name => s!"块 '{name}' 缺少结束行"
  | mismatchedSectionEnd expected found => s!"块 '{expected}' 被 '{found}' 关闭"
  | duplicateBlock name => s!"块 '{name}' 重复定义"
  | unexpectedEnd block position => s!"块 '{block}' 中第 {position} 个节点：end 没有对应的 if"
  | elseWithoutIf block position => s!"块 '{block}' 中第 {position} 个节点：else 没有对应的 if"
  | duplicateElse block position =>
    s!"块 '{block}' 中第 {position} 个节点：同一个 if 出现了多个 else"
  | unclosedIf block count => s!"块 '{block}' 中有 {count} 个 if 缺少 end"
  | noSuchBlock name => s!"块 '{name}' 不存在"
  | noSuchDirective name => s!"元指令 '{name}' 不存在"
  | missingDirectiveArgument name => s!"元指令 '{name}' 缺少参数"
  | unlinkedBranch block index => s!"内部错误：块 '{block}' 中索引 {index} 的分支节点未链接"
  | destinationOutOfRange block index destination total =>
    s!"内部错误：块 '{block}' 中索引 {index} 的跳转目标 {destination} 超出指令序列（共 {total} 条）"
  | markerEmitted block index => s!"内部错误：块 '{block}' 中索引 {index} 的伪节点不能生成指令"

end SceneScript
