import SceneScript.Proofs.Render.Argument

/-!
# Writing calls

A call is written as its name and its arguments in brackets.  The brackets that count are the first that opens and
the last that closes, so a quoted argument may hold any others.  What is written is read back as the call it
was, with any blanks around the call and around its arguments.

    Call.parse sym (written call with blanks) = .ok call             (parse_spacedCall)
    Call.parse sym (written call) = .ok call                         (parse_writtenCall)
-/

namespace SceneScript

section

variable {sym : Symbols}

/-- A call with brackets is read from its name and from what stands between the outer brackets. -/
theorem Call.parse_framed {text name inner : List Char}
    (htext : Text.trim text = name ++ sym.openBracket :: (inner ++ [sym.closeBracket]))
    (hname : sym.openBracket ∉ name) :
    Call.parse sym (String.ofList text) =
      ((readArguments sym (.bare []) (Text.trim inner)).mapError (·.inText (Text.trim inner))).map
        (Call.mk (String.ofList (Text.trim name))) := by
  have hfirst : cutFirst sym.openBracket (Text.trim text) = some (name, inner ++ [sym.closeBracket]) := by
    rw [htext]
    exact cutFirst_append hname _
  have hlast : cutLast sym.closeBracket (Text.trim text) = some (name ++ sym.openBracket :: inner, []) := by
    have hconcat := cutLast_concat sym.closeBracket (name ++ sym.openBracket :: inner)
    rwa [List.append_assoc, List.cons_append, ← htext] at hconcat
  have hdrop : (name ++ sym.openBracket :: inner).drop (name.length + 1) = inner := by simp [List.drop_append]
  simp only [Call.parse, String.toList_ofList]
  rw [hfirst, hlast]
  simp only [List.length_append, List.length_cons, List.all_nil]
  rw [if_pos ⟨by omega, trivial⟩, hdrop]
  by_cases hempty : Text.trim inner = []
  · rw [hempty, readArguments]
    rfl
  · rw [if_neg (by simpa using hempty)]
    cases readArguments sym (.bare []) (Text.trim inner) <;> rfl

theorem Call.parse_eq_ok {text name inner : List Char} {args : List Value}
    (htext : Text.trim text = name ++ sym.openBracket :: (inner ++ [sym.closeBracket]))
    (hname : sym.openBracket ∉ name) (hargs : readArguments sym (.bare []) (Text.trim inner) = .ok args) :
    Call.parse sym (String.ofList text) = .ok ⟨String.ofList (Text.trim name), args⟩ := by
  rw [Call.parse_framed htext hname, hargs]
  rfl

theorem solid_bracketed (hsym : sym.InUse) {name : List Char} (h : Text.Solid name) (inner : List Char) :
    Text.Solid (name ++ sym.openBracket :: (inner ++ [sym.closeBracket])) := by
  have hopen := (hsym.visible (c := sym.openBracket) (by simp [Symbols.marks])).solid
  have hclose := (hsym.visible (c := sym.closeBracket) (by simp [Symbols.marks])).solid
  by_cases hname : name = []
  · subst hname
    exact hopen.between (by simp) hclose (by simp) inner
  · exact h.between hname hclose (by simp) (sym.openBracket :: inner)

/-! ## Calls with blanks -/

/-- **A call is read back from its name and its arguments, whatever blanks stand around it and around each of the
arguments.**  The name has no blanks at its ends and no opening bracket; a text among the arguments may hold every
character but the closing quote. -/
theorem parse_spacedCall (hsym : sym.InUse) {name : String} (htrim : trimmed name = name)
    (hname : sym.openBracket ∉ name.toList) (args : List (Spaced sym)) {before after : List Char}
    (hbefore : Text.AllBlank before) (hafter : Text.AllBlank after) :
    Call.parse sym (String.ofList (before ++ ((name.toList ++ sym.openBracket ::
      (Spaced.joined args ++ [sym.closeBracket])) ++ after))) = .ok ⟨name, args.map Spaced.value⟩ := by
  have htrim' : Text.trim name.toList = name.toList := by
    have := congrArg String.toList htrim
    rwa [trimmed, String.toList_ofList] at this
  have hsolid : Text.Solid name.toList := htrim' ▸ Text.solid_trim name.toList
  have htext := (solid_bracketed hsym hsolid (Spaced.joined args)).trim_append hbefore hafter
  have hargs : readArguments sym (.bare []) (Text.trim (Spaced.joined args)) = .ok (args.map Spaced.value) := by
    rw [readArguments_trim hsym, readArguments_joined hsym]
  have hparse := Call.parse_eq_ok htext hname hargs
  rwa [htrim', String.ofList_toList] at hparse

/-- Arguments that hold brackets, commas, an opening quote and a line break, or nothing at all. -/
def noticeArguments : List (Spaced .chinese) :=
  [⟨[' '], .text "）（1，“\n", ['\t'], by decide, by decide, by decide⟩,
    ⟨[], .int (-9223372036854775808), [], by decide, trivial, by decide⟩,
    ⟨['\u3000'], .bool true, ['\n'], by decide, trivial, by decide⟩,
    ⟨[], .text "", [' '], by decide, by decide, by decide⟩]

theorem parse_notice :
    Call.parse .chinese " 输 出（ “）（1，“\n”\t，-9223372036854775808，\u3000true\n，“” ）\n" =
      .ok ⟨"输 出", [.text "）（1，“\n", .int (-9223372036854775808), .bool true, .text ""]⟩ := by
  have hname : trimmed "输 出" = "输 出" := by decide +kernel
  have hread := parse_spacedCall (.inr rfl) hname (by decide) noticeArguments (by decide : Text.AllBlank [' '])
    (by decide : Text.AllBlank ['\n'])
  have htext : String.ofList ([' '] ++ (("输 出".toList ++ Symbols.chinese.openBracket ::
      (Spaced.joined noticeArguments ++ [Symbols.chinese.closeBracket])) ++ ['\n'])) =
        " 输 出（ “）（1，“\n”\t，-9223372036854775808，\u3000true\n，“” ）\n" := by decide +kernel
  rw [htext] at hread
  exact hread

/-! ## Calls on a line -/

/-- The arguments with commas between them. -/
def writtenArguments (sym : Symbols) (args : List Value) : List Char :=
  [sym.comma, ' '].intercalate (args.map (Value.written sym))

/-- A space before each argument instead of one after each comma. -/
theorem space_intercalate (c : Char) {ws : List (List Char)} (hne : ws ≠ []) :
    ' ' :: [c, ' '].intercalate ws = [c].intercalate (ws.map (' ' :: ·)) := by
  induction ws with
  | nil => exact absurd rfl hne
  | cons w ws ih =>
    cases ws with
    | nil => rfl
    | cons v ws =>
      have hrest := ih (by simp)
      rw [List.map_cons] at hrest
      rw [List.map_cons, List.map_cons, List.intercalate_cons_cons, List.intercalate_cons_cons, ← hrest]
      simp

theorem exists_spaced {args : List Value} (h : ∀ v ∈ args, v.Fits sym) :
    ∃ spaced : List (Spaced sym), spaced.map Spaced.value = args ∧
      spaced.map Spaced.text = (args.map (Value.written sym)).map (' ' :: ·) := by
  induction args with
  | nil => exact ⟨[], rfl, rfl⟩
  | cons v args ih =>
    obtain ⟨spaced, hvalue, htext⟩ := ih fun w hw => h w (List.mem_cons_of_mem _ hw)
    refine ⟨⟨[' '], v, [], Text.AllBlank.space, h v List.mem_cons_self, Text.AllBlank.nil⟩ :: spaced, ?_, ?_⟩
    · rw [List.map_cons, hvalue]
    · simp [htext, Spaced.text]

theorem readArguments_written (hsym : sym.InUse) {args : List Value} (h : ∀ v ∈ args, v.IsArgument) :
    readArguments sym (.bare []) (Text.trim (writtenArguments sym args)) = .ok args := by
  by_cases hne : args = []
  · subst hne
    rfl
  · obtain ⟨spaced, hvalue, htext⟩ := exists_spaced fun v hv => (h v hv).fits hsym
    have hjoined : Spaced.joined spaced = [' '] ++ writtenArguments sym args := by
      rw [Spaced.joined, htext, ← space_intercalate sym.comma (by simpa using hne)]
      rfl
    -- the space before the first argument is trimmed away again
    have hread := readArguments_joined hsym spaced
    rwa [hvalue, hjoined, ← readArguments_trim hsym, Text.trim, Text.trimStart_append Text.AllBlank.space] at hread

/-- The call as it is written. -/
def Call.written (sym : Symbols) (c : Call) : List Char :=
  c.name.toList ++ sym.openBracket :: (writtenArguments sym c.args ++ [sym.closeBracket])

/-- The call can be written. -/
def Call.IsWritable (c : Call) : Prop := IsName c.name ∧ ∀ v ∈ c.args, v.IsArgument

theorem visible_intText (n : Int) : Text.Visible (Decimal.intText n) := by
  unfold Decimal.intText
  split
  · have hminus : Text.Visible ['-'] := Text.visible_singleton (by decide) (by decide)
    exact hminus.between Text.Clear.nil (Expr.visible_natText _)
  · exact Expr.visible_natText _

theorem Value.visible_written (hsym : sym.InUse) {v : Value} (hv : v.IsArgument) :
    Text.Visible (v.written sym) := by
  cases v with
  | int n => exact visible_intText _
  | bool b => exact (Expr.isName_bool b).visible
  | text s => exact Expr.visible_quoted hsym hv
  | float x => cases hv

theorem clear_comma (hsym : sym.InUse) : Text.Clear [sym.comma, ' '] := by
  rcases hsym with rfl | rfl <;> unfold Text.Clear <;> decide

theorem clear_writtenArguments (hsym : sym.InUse) {args : List Value} (h : ∀ v ∈ args, v.IsArgument) :
    Text.Clear (writtenArguments sym args) := by
  induction args with
  | nil => exact Text.Clear.nil
  | cons v args ih =>
    have hv := Value.visible_written hsym (h v List.mem_cons_self)
    cases args with
    | nil => simpa [writtenArguments] using hv.clear
    | cons w args =>
      have hrest := ih fun u hu => h u (List.mem_cons_of_mem _ hu)
      have := hv.clear.append ((clear_comma hsym).append hrest)
      simpa [writtenArguments, List.intercalate_cons_cons] using this

theorem Call.visible_written (hsym : sym.InUse) {c : Call} (h : c.IsWritable) :
    Text.Visible (c.written sym) := by
  have hopen : Text.Visible [sym.openBracket] := hsym.visible (by simp [Symbols.marks])
  have hclose : Text.Visible [sym.closeBracket] := hsym.visible (by simp [Symbols.marks])
  have := h.1.visible.between (hopen.clear.append (clear_writtenArguments hsym h.2)) hclose
  simpa [Call.written] using this

/-- **A call that is written is read back.** -/
theorem parse_writtenCall (hsym : sym.InUse) {c : Call} (h : c.IsWritable) :
    Call.parse sym (String.ofList (c.written sym)) = .ok c := by
  have hopen : sym.openBracket ∉ c.name.toList := by
    intro hmem
    have hchar := h.1.2 _ hmem
    have hmark := (hsym.mark (c := sym.openBracket) (by simp [Symbols.marks])).2.2
    rw [hmark] at hchar
    cases hchar
  have htext := (Call.visible_written hsym h).solid.trim_eq
  have hparse := Call.parse_eq_ok htext hopen (readArguments_written hsym h.2)
  rwa [h.1.visible.solid.trim_eq, String.ofList_toList] at hparse

end

end SceneScript
