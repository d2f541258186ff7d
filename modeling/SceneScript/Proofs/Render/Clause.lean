import SceneScript.Node
import SceneScript.Proofs.Render.Call

/-!
# Writing statements

A clause is a statement without the words and symbols of a language.  Written in a language, it is one line; the
line is read as a statement, and the statement gives the node that the clause stands for.

    Statement.parse lang (line of c) = .ok (c.statement lang)        (parse_line)
    (c.statement lang).node lang.symbols = .ok c.node                (node_statement)
-/

namespace SceneScript

/-- One of the two languages. -/
def Language.InUse (lang : Language) : Prop := lang = .english ∨ lang = .chinese

theorem Language.InUse.symbols {lang : Language} (h : lang.InUse) : lang.symbols.InUse := by
  rcases h with rfl | rfl
  · exact .inl rfl
  · exact .inr rfl

/-- The words of the language. -/
def Language.words (lang : Language) : List String :=
  lang.symbols.sectionEnd :: (lang.keywords.map Prod.fst ++ lang.directives.map Prod.fst)

theorem Language.InUse.isName {lang : Language} (h : lang.InUse) {s : String} (hs : s ∈ lang.words) :
    IsName s := by
  have hall : ∀ lang ∈ [english, chinese], ∀ s ∈ lang.words, IsName s := by
    unfold IsName
    decide +kernel
  exact hall lang (by simpa [InUse] using h) s hs

/-- The word for a keyword. -/
def Language.word (lang : Language) (k : Keyword) : String := (lang.wordFor? k).getD k.name

/-- A statement without the words and symbols of a language. -/
inductive Clause where
  | ifThen (test : Expr)
  | otherwise
  | endIf
  | action (call : Call)
  | entry (block : String)
  | bind (name : String)
  | unbind (name : Option String)
  | ret
  | stop
  | yield (value : Option Expr)
  | compute (e : Expr)

namespace Clause

/-- The keyword of the statement. -/
def keyword : Clause → Keyword
  | ifThen _ => .ifThen
  | otherwise => .otherwise
  | endIf => .endIf
  | action _ => .action
  | entry _ => .entry
  | bind _ => .bind
  | unbind _ => .unbind
  | ret => .ret
  | stop => .stop
  | yield _ => .yield
  | compute _ => .compute

/-- What follows the keyword. -/
def argument (sym : Symbols) : Clause → Option (List Char)
  | ifThen test => some (test.written sym)
  | action call => some (call.written sym)
  | entry block => some block.toList
  | bind name => some name.toList
  | unbind name => name.map String.toList
  | yield value => value.map (Expr.written sym)
  | compute e => some (e.written sym)
  | otherwise | endIf | ret | stop => none

/-- The node that the statement stands for. -/
def node : Clause → NodeKind
  | ifThen test => .branch test none none
  | otherwise => .otherwise none
  | endIf => .endIf
  | action call => .plain (.action call.name call.args)
  | entry block => .entry block
  | bind name => .plain (.bind name)
  | unbind name => .plain (.unbind name)
  | ret => .plain .ret
  | stop => .plain .stop
  | yield value => .plain (.yield value)
  | compute e => .plain (.compute e)

/-- The statement can be written on a line. -/
def IsWritable : Clause → Prop
  | ifThen test => test.IsWritable
  | action call => call.IsWritable
  | entry block => IsName block
  | bind name => IsName name
  | unbind name => ∀ s ∈ name, IsName s
  | yield value => ∀ e ∈ value, e.IsWritable
  | compute e => e.IsWritable
  | otherwise | endIf | ret | stop => True

/-- A space and what follows it, if there is anything. -/
def spaced : Option (List Char) → List Char
  | none => []
  | some a => ' ' :: a

/-- The line of the statement. -/
def line (lang : Language) (c : Clause) : List Char :=
  lang.symbols.keyword :: ((lang.word c.keyword).toList ++ spaced (c.argument lang.symbols))

/-- The statement as it is read from its line. -/
def statement (lang : Language) (c : Clause) : Statement :=
  ⟨c.keyword, (c.argument lang.symbols).toList.map String.ofList, String.ofList (c.line lang)⟩

section

variable {lang : Language}

theorem visible_argument (hsym : lang.symbols.InUse) {c : Clause} (h : c.IsWritable) :
    ∀ a ∈ c.argument lang.symbols, Text.Visible a := by
  intro a ha
  cases c with
  | ifThen test =>
    cases ha
    exact Expr.visible_written hsym h
  | action call =>
    cases ha
    exact Call.visible_written hsym h
  | entry block =>
    cases ha
    exact IsName.visible h
  | bind name =>
    cases ha
    exact IsName.visible h
  | unbind name =>
    obtain ⟨s, hs, rfl⟩ := Option.map_eq_some_iff.1 ha
    exact IsName.visible (h s hs)
  | yield value =>
    obtain ⟨e, he, rfl⟩ := Option.map_eq_some_iff.1 ha
    exact Expr.visible_written hsym (h e he)
  | compute e =>
    cases ha
    exact Expr.visible_written hsym h
  | otherwise | endIf | ret | stop => cases ha

/-- The keyword takes what follows it. -/
theorem takeArguments_argument (hsym : lang.symbols.InUse) {c : Clause} (h : c.IsWritable) :
    Statement.takeArguments c.keyword.arity ((c.argument lang.symbols).getD []) =
      some ((c.argument lang.symbols).toList.map String.ofList) := by
  have hsome : ∀ a ∈ c.argument lang.symbols, a.isEmpty = false := by
    intro a ha
    simpa using (visible_argument hsym h a ha).ne_nil
  cases c with
  | ifThen | action | entry | bind | compute =>
    simp [argument, keyword, Keyword.arity, Statement.takeArguments, hsome _ rfl]
  | unbind name =>
    cases name with
    | none => rfl
    | some s => simp [argument, keyword, Keyword.arity, Statement.takeArguments, hsome _ rfl]
  | yield value =>
    cases value with
    | none => rfl
    | some e => simp [argument, keyword, Keyword.arity, Statement.takeArguments, hsome _ rfl]
  | otherwise | endIf | ret | stop => rfl

theorem word_facts (hlang : lang.InUse) (k : Keyword) :
    lang.keyword? (lang.word k) = some k ∧ IsName (lang.word k) := by
  constructor
  · rcases hlang with rfl | rfl <;> cases k <;> rfl
  · apply hlang.isName
    rcases hlang with rfl | rfl <;> cases k <;> decide

theorem symbol_facts (hlang : lang.InUse) :
    lang.symbols.keyword ≠ lang.symbols.reference ∧ lang.symbols.keyword ≠ lang.symbols.directive := by
  rcases hlang with rfl | rfl <;> decide

theorem parse_keyword (hne : lang.symbols.keyword ≠ lang.symbols.reference) {k : Keyword} {word : String}
    (hword : IsName word) (hk : lang.keyword? word = some k) {tail : List Char}
    (hstop : Expr.startsWith (fun d => !Text.isBlank d) tail = false) {args : List String}
    (hargs : Statement.takeArguments k.arity (Text.trim tail) = some args) {line : String}
    (hline : line.toList = lang.symbols.keyword :: (word.toList ++ tail)) :
    Statement.parse lang line = .ok ⟨k, args, line⟩ := by
  have hrun : ∀ d ∈ word.toList, (!Text.isBlank d) = true := by
    intro d hd
    rw [Text.not_blank_of_isNameChar (hword.2 d hd)]
    rfl
  have htake := Expr.takeWhile_run hrun hstop
  have hdrop := Expr.dropWhile_run hrun hstop
  have hnonempty := hword.visible.ne_nil
  simp [Statement.parse, hline, hne, htake, hdrop, hnonempty, hk, hargs]

/-- **The line of a clause is read as its statement.** -/
theorem parse_line (hlang : lang.InUse) {c : Clause} (h : c.IsWritable) :
    Statement.parse lang (String.ofList (c.line lang)) = .ok (c.statement lang) := by
  obtain ⟨hkeyword, hword⟩ := word_facts hlang c.keyword
  have hstop : Expr.startsWith (fun d => !Text.isBlank d) (spaced (c.argument lang.symbols)) = false := by
    cases c.argument lang.symbols <;> rfl
  have htrim : Text.trim (spaced (c.argument lang.symbols)) = (c.argument lang.symbols).getD [] := by
    cases harg : c.argument lang.symbols with
    | none => rfl
    | some a =>
      have hsolid := (visible_argument hlang.symbols h a harg).solid
      have := hsolid.trim_append Text.AllBlank.space Text.AllBlank.nil
      rwa [List.append_nil] at this
  refine parse_keyword (symbol_facts hlang).1 hword hkeyword hstop ?_ String.toList_ofList
  rw [htrim, takeArguments_argument hlang.symbols h]

theorem bareName_of_isName (hsym : lang.symbols.InUse) {name : String} (h : IsName name) :
    Statement.bareName lang.symbols name = name := by
  obtain ⟨c, cs, hcs⟩ := List.exists_cons_of_ne_nil h.visible.ne_nil
  have hc : c ≠ lang.symbols.reference := by
    rintro rfl
    have hchar := h.2 _ (hcs ▸ List.mem_cons_self)
    rw [(hsym.mark (by simp [Symbols.marks])).2.2] at hchar
    cases hchar
  have hname : String.ofList (c :: cs) = name := by rw [← hcs, String.ofList_toList]
  rw [Statement.bareName, h.visible.solid.trim_eq, hcs]
  simp [hc, hname]

/-- **The statement of a clause gives its node.** -/
theorem node_statement (hlang : lang.InUse) {c : Clause} (h : c.IsWritable) :
    (c.statement lang).node lang.symbols = .ok c.node := by
  have hsym := hlang.symbols
  cases c with
  | ifThen test =>
    have hparse := Expr.parse_written hsym h
    simp [Statement.node, statement, keyword, Statement.argument, argument, hparse, Except.map, node]
  | action call =>
    have hparse := parse_writtenCall hsym h
    simp [Statement.node, statement, keyword, Statement.argument, argument, hparse, Except.map, node]
  | entry block =>
    have htrim := (IsName.visible h).solid.trim_eq
    simp [Statement.node, statement, keyword, Statement.argument, argument, trimmed, htrim, node]
  | bind name =>
    have hname := bareName_of_isName hsym h
    simp [Statement.node, statement, keyword, Statement.argument, argument, hname, node]
  | unbind name =>
    cases name with
    | none => rfl
    | some s =>
      have hname := bareName_of_isName hsym (h s rfl)
      simp [Statement.node, statement, keyword, argument, hname, node]
  | yield value =>
    cases value with
    | none => rfl
    | some e =>
      have hparse := Expr.parse_written hsym (h e rfl)
      simp [Statement.node, statement, keyword, argument, hparse, Except.map, node]
  | compute e =>
    have hparse := Expr.parse_written hsym h
    simp [Statement.node, statement, keyword, Statement.argument, argument, hparse, Except.map, node]
  | otherwise | endIf | ret | stop => rfl

theorem visible_line (hlang : lang.InUse) {c : Clause} (h : c.IsWritable) :
    Text.Visible (c.line lang) := by
  have hkeyword : Text.Visible [lang.symbols.keyword] := hlang.symbols.visible (by simp [Symbols.marks])
  have hword := (word_facts hlang c.keyword).2.visible
  unfold line
  cases harg : c.argument lang.symbols with
  | none => simpa [spaced] using hkeyword.between Text.Clear.nil hword
  | some a =>
    have ha := visible_argument hlang.symbols h a harg
    simpa [spaced] using hkeyword.between (hword.clear.append Text.Clear.space) ha

end

end Clause

end SceneScript
