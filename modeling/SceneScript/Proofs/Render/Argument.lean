import SceneScript.Call
import SceneScript.Proofs.Decimal.Integer
import SceneScript.Proofs.Render.Expr

/-!
# Writing arguments

An integer or a truth value is written as a word, a text between quotes.  Arguments are written with commas between
them and any blanks around each, and are read back as the values they were.

    readArguments sym (.bare []) (Text.trim cs) = readArguments sym (.bare []) cs    (readArguments_trim)
    readArguments sym (.bare []) (Spaced.joined args) = .ok (args.map Spaced.value)  (readArguments_joined)
-/

namespace SceneScript

namespace Value

/-- The value can be written as an argument on a line, in either language. -/
def IsArgument : Value → Prop
  | int _ => True
  | bool _ => True
  | text s => IsQuotable s
  | float _ => False

/-- The value can be written as an argument with these symbols: a text must not hold the closing quote. -/
def Fits (sym : Symbols) : Value → Prop
  | int _ => True
  | bool _ => True
  | text s => sym.closeQuote ∉ s.toList
  | float _ => False

instance (sym : Symbols) (v : Value) : Decidable (v.Fits sym) :=
  match v with
  | int _ => .isTrue trivial
  | bool _ => .isTrue trivial
  | text s => inferInstanceAs (Decidable (sym.closeQuote ∉ s.toList))
  | float _ => .isFalse id

/-- The value as an argument. -/
def written (sym : Symbols) : Value → List Char
  | int n => Decimal.intText n.toInt
  | bool b => (if b then "true" else "false").toList
  | text s => sym.openQuote :: (s.toList ++ [sym.closeQuote])
  | float _ => []

theorem IsArgument.fits {sym : Symbols} (hsym : sym.InUse) {v : Value} (h : v.IsArgument) : v.Fits sym := by
  cases v with
  | int | bool => trivial
  | text s => exact Expr.closeQuote_not_mem hsym h
  | float => cases h

/-! ## Values without quotes -/

/-- An integer is written as a sign, if it needs one, and its digits. -/
theorem exists_text_eq_intText (k : Int) : ∃ w : Decimal.SignedDigits, w.text = Decimal.intText k ∧ w.value = k := by
  have hvalue : ∀ m : Nat, Decimal.placeValue (Decimal.natText m) = m := by
    intro m
    rw [← Decimal.ofDigits_eq_placeValue, Decimal.ofDigits_natText]
  unfold Decimal.intText
  split
  · refine ⟨⟨.minus, _, Expr.isDigits_natText k.natAbs⟩, rfl, ?_⟩
    simp only [Decimal.SignedDigits.value, Decimal.SignMark.apply, hvalue]
    omega
  · refine ⟨⟨.none, _, Expr.isDigits_natText k.toNat⟩, rfl, ?_⟩
    simp only [Decimal.SignedDigits.value, Decimal.SignMark.apply, hvalue]
    omega

theorem readInt64?_intText (n : Int64) : Decimal.readInt64? (Decimal.intText n.toInt) = some n :=
  Decimal.readInt64?_eq_some_iff.2 ⟨exists_text_eq_intText n.toInt, n.minValue_le_toInt, n.toInt_le⟩

theorem ofWord_intText (n : Int64) : ofWord (String.ofList (Decimal.intText n.toInt)) = .int n := by
  rw [ofWord, String.toList_ofList, readInt64?_intText]

theorem ofWord_bool (b : Bool) : ofWord (if b then "true" else "false") = .bool b := by
  cases b <;> rfl

end Value

section

variable {sym : Symbols}

/-- A text without quotes that is one argument. -/
def IsWord (sym : Symbols) (w : List Char) : Prop :=
  w ≠ [] ∧ ∀ c ∈ w, c ≠ sym.comma ∧ c ≠ sym.openQuote ∧ Text.isBlank c = false

theorem isWord_of_forall (hsym : sym.InUse) {w : List Char} (hne : w ≠ [])
    (h : ∀ c ∈ w, c.isDigit = true ∨ c ∈ '-' :: "truefals".toList) : IsWord sym w := by
  have hmarks : ∀ c ∈ '-' :: "truefals".toList, c ≠ sym.comma ∧ c ≠ sym.openQuote ∧
      Text.isBlank c = false := by
    rcases hsym with rfl | rfl <;> decide
  have hdigit : sym.comma.isDigit = false ∧ sym.openQuote.isDigit = false := by
    rcases hsym with rfl | rfl <;> decide
  refine ⟨hne, fun c hc => ?_⟩
  rcases h c hc with h | h
  · exact ⟨Expr.isDigit_ne h hdigit.1, Expr.isDigit_ne h hdigit.2, Expr.isBlank_eq_false_of_isDigit h⟩
  · exact hmarks c h

theorem isWord_intText (hsym : sym.InUse) (n : Int) : IsWord sym (Decimal.intText n) := by
  have hdigits := fun k => (Expr.isDigits_natText k).2
  unfold Decimal.intText
  split
  · refine isWord_of_forall hsym (by simp) fun c hc => ?_
    rcases List.mem_cons.1 hc with rfl | hc
    · exact .inr (by decide)
    · exact .inl (hdigits _ c hc)
  · exact isWord_of_forall hsym (Expr.isDigits_natText _).1 fun c hc => .inl (hdigits _ c hc)

theorem isWord_bool (hsym : sym.InUse) (b : Bool) :
    IsWord sym (if b then "true" else "false").toList := by
  have hchars : ∀ c ∈ (if b then "true" else "false").toList, c ∈ '-' :: "truefals".toList := by
    cases b <;> decide
  exact isWord_of_forall hsym (by cases b <;> decide) fun c hc => .inr (hchars c hc)

/-! ## Characters of one kind -/

section

-- the lemmas below open the reader; those on whole arguments go by them
attribute [local simp] readArguments

theorem readArguments_plain {w : List Char} (h : ∀ c ∈ w, c ≠ sym.comma ∧ c ≠ sym.openQuote) (acc rest : List Char) :
    readArguments sym (.bare acc) (w ++ rest) = readArguments sym (.bare (w.reverse ++ acc)) rest := by
  induction w generalizing acc with
  | nil => rfl
  | cons c w ih =>
    obtain ⟨hcomma, hquote⟩ := h c List.mem_cons_self
    have hnext := ih (fun d hd => h d (List.mem_cons_of_mem _ hd)) (c :: acc)
    rw [List.cons_append, readArguments, if_neg hcomma, if_neg hquote, ite_self, hnext]
    simp

theorem readArguments_inside {s : List Char} (h : sym.closeQuote ∉ s) (acc rest : List Char) :
    readArguments sym (.inside acc) (s ++ sym.closeQuote :: rest) =
      readArguments sym (.closed (s.reverse ++ acc)) rest := by
  induction s generalizing acc with
  | nil => simp
  | cons c s ih =>
    rw [List.mem_cons, not_or] at h
    rw [List.cons_append, readArguments, if_neg (Ne.symm h.1), ih h.2]
    simp

theorem ne_mark_of_isBlank (hsym : sym.InUse) {c mark : Char} (hc : Text.isBlank c = true)
    (hmark : mark ∈ sym.marks) : c ≠ mark := by
  rintro rfl
  rw [(hsym.mark hmark).1] at hc
  cases hc

theorem readArguments_bare_blanks (hsym : sym.InUse) {bs : List Char} (h : Text.AllBlank bs) (acc rest : List Char) :
    readArguments sym (.bare acc) (bs ++ rest) = readArguments sym (.bare (bs.reverse ++ acc)) rest := by
  apply readArguments_plain
  intro c hc
  have hblank := h c hc
  exact ⟨ne_mark_of_isBlank hsym hblank (by simp [Symbols.marks]),
    ne_mark_of_isBlank hsym hblank (by simp [Symbols.marks])⟩

theorem readArguments_closed_blanks (hsym : sym.InUse) {bs : List Char} (h : Text.AllBlank bs)
    (text rest : List Char) :
    readArguments sym (.closed text) (bs ++ rest) = readArguments sym (.closed text) rest := by
  induction bs with
  | nil => rfl
  | cons c bs ih =>
    obtain ⟨hc, hbs⟩ := h.of_cons
    have hcomma : c ≠ sym.comma := ne_mark_of_isBlank hsym hc (by simp [Symbols.marks])
    rw [List.cons_append, readArguments, if_neg hcomma, if_pos hc, ih hbs]

/-- Without a closing quote the quoted text does not end. -/
theorem readArguments_open_quote {quote : List Char} (h : sym.closeQuote ∉ quote) (text : List Char) :
    readArguments sym (.inside text) quote = .error .unterminated := by
  induction quote generalizing text with
  | nil => rw [readArguments]
  | cons c quote ih =>
    rw [List.mem_cons, not_or] at h
    rw [readArguments, if_neg (Ne.symm h.1), ih h.2]

/-- A quote is read up to its end, if only blanks stand before it. -/
theorem readArguments_quote (hsym : sym.InUse) {before s : List Char} (hbefore : Text.AllBlank before)
    (hs : sym.closeQuote ∉ s) (rest : List Char) :
    readArguments sym (.bare []) (before ++ sym.openQuote :: (s ++ sym.closeQuote :: rest)) =
      readArguments sym (.closed s.reverse) rest := by
  have hopen : sym.openQuote ≠ sym.comma ∧ Text.isBlank sym.openQuote = false := by
    rcases hsym with rfl | rfl <;> decide
  have hall : (before.reverse ++ []).all Text.isBlank = true := by
    rw [List.append_nil, List.all_reverse]
    exact List.all_eq_true.2 hbefore
  have hinside := readArguments_inside hs [] rest
  rw [List.append_nil] at hinside
  rw [readArguments_bare_blanks hsym hbefore, readArguments, if_neg hopen.1, hopen.2, if_neg (by decide),
    if_pos rfl, if_pos hall, hinside]

end

/-! ## Blanks at the ends -/

theorem all_append_blanks {bs : List Char} (h : Text.AllBlank bs) (cs : List Char) :
    (cs ++ bs).all Text.isBlank = cs.all Text.isBlank := by
  have hall : bs.all Text.isBlank = true := List.all_eq_true.2 h
  rw [List.all_append, hall, Bool.and_true]

/-- Blanks before an argument do not count. -/
theorem readArguments_blanks_before (sym : Symbols) {bs : List Char} (h : Text.AllBlank bs) (text cs : List Char) :
    readArguments sym (.bare (text ++ bs)) cs = readArguments sym (.bare text) cs := by
  have htrim : ∀ text, Text.trim (text ++ bs).reverse = Text.trim text.reverse := by
    intro text
    have hreverse : Text.AllBlank bs.reverse := fun c hc => h c (List.mem_reverse.1 hc)
    rw [List.reverse_append, Text.trim, Text.trimStart_append hreverse, ← Text.trim]
  induction cs generalizing text with
  | nil => rw [readArguments, readArguments, all_append_blanks h, htrim]
  | cons c cs ih =>
    have hnext := ih (c :: text)
    rw [List.cons_append] at hnext
    rw [readArguments, readArguments, hnext, all_append_blanks h, htrim]

theorem readArguments_blanks_append (hsym : sym.InUse) {bs : List Char} (h : Text.AllBlank bs) (cs : List Char) :
    readArguments sym (.bare []) (bs ++ cs) = readArguments sym (.bare []) cs := by
  have hreverse : Text.AllBlank bs.reverse := fun c hc => h c (List.mem_reverse.1 hc)
  have hbefore := readArguments_blanks_before sym hreverse [] cs
  rw [readArguments_bare_blanks hsym h, List.append_nil]
  rwa [List.nil_append] at hbefore

/-- Blanks after the last argument do not count. -/
theorem readArguments_blanks_after (hsym : sym.InUse) {bs : List Char} (h : Text.AllBlank bs) (a : Argument)
    (cs : List Char) : readArguments sym a (cs ++ bs) = readArguments sym a cs := by
  induction cs generalizing a with
  | nil =>
    rw [List.nil_append]
    cases a with
    | bare text =>
      have hread := readArguments_bare_blanks hsym h text []
      rw [List.append_nil] at hread
      have hall : (bs.reverse ++ text).all Text.isBlank = text.all Text.isBlank := by
        have hblank : bs.all Text.isBlank = true := List.all_eq_true.2 h
        rw [List.all_append, List.all_reverse, hblank, Bool.true_and]
      rw [hread, readArguments, readArguments, hall, List.reverse_append, List.reverse_reverse,
        Text.trim_append_blanks h]
    | inside text =>
      have hclose : sym.closeQuote ∉ bs := fun hmem =>
        ne_mark_of_isBlank hsym (h _ hmem) (by simp [Symbols.marks]) rfl
      rw [readArguments_open_quote hclose, readArguments]
    | closed text =>
      have hread := readArguments_closed_blanks hsym h text []
      rwa [List.append_nil] at hread
  | cons c cs ih =>
    cases a with
    | bare text => simp only [List.cons_append, readArguments, ih]
    | inside text => simp only [List.cons_append, readArguments, ih]
    | closed text => simp only [List.cons_append, readArguments, ih]

/-- **Blanks at the ends of a list of arguments do not count.** -/
theorem readArguments_trim (hsym : sym.InUse) (cs : List Char) :
    readArguments sym (.bare []) (Text.trim cs) = readArguments sym (.bare []) cs := by
  obtain ⟨as, bs, has, hbs, hcs⟩ := Text.exists_trim cs
  calc readArguments sym (.bare []) (Text.trim cs)
      = readArguments sym (.bare []) (Text.trim cs ++ bs) := (readArguments_blanks_after hsym hbs _ _).symm
    _ = readArguments sym (.bare []) (as ++ (Text.trim cs ++ bs)) := (readArguments_blanks_append hsym has _).symm
    _ = readArguments sym (.bare []) cs := by rw [← hcs]

/-! ## One argument -/

/-- What has been read is exactly the value. -/
def Argument.Holds (sym : Symbols) (a : Argument) (v : Value) : Prop :=
  readArguments sym a [] = .ok [v] ∧
    ∀ rest, readArguments sym a (sym.comma :: rest) = (readArguments sym (.bare []) rest).map (v :: ·)

theorem holds_word {w : List Char} (h : IsWord sym w) {before after : List Char} (hbefore : Text.AllBlank before)
    (hafter : Text.AllBlank after) :
    (Argument.bare (after.reverse ++ (w.reverse ++ before.reverse))).Holds sym (.ofWord (String.ofList w)) := by
  have hsolid : Text.Solid w := Text.solid_of_forall fun c hc => (h.2 c hc).2.2
  have htrim : Text.trim (after.reverse ++ (w.reverse ++ before.reverse)).reverse = w := by
    simpa using hsolid.trim_append hbefore hafter
  have hvisible : (after.reverse ++ (w.reverse ++ before.reverse)).all Text.isBlank = false := by
    obtain ⟨c, w, rfl⟩ := List.exists_cons_of_ne_nil h.1
    have := (h.2 c List.mem_cons_self).2.2
    simp [this]
  constructor
  · rw [readArguments, hvisible, if_neg (by decide), htrim]
  · intro rest
    rw [readArguments, if_pos rfl, htrim]

theorem holds_closed (text : List Char) :
    (Argument.closed text).Holds sym (.text (String.ofList text.reverse)) :=
  ⟨by rw [readArguments], fun rest => by rw [readArguments, if_pos rfl]⟩

/-- A word with blanks around it has been read. -/
theorem exists_holds_word (hsym : sym.InUse) {w : List Char} (h : IsWord sym w) {before after : List Char}
    (hbefore : Text.AllBlank before) (hafter : Text.AllBlank after) :
    ∃ a : Argument, a.Holds sym (.ofWord (String.ofList w)) ∧
      ∀ rest, readArguments sym (.bare []) (before ++ (w ++ (after ++ rest))) = readArguments sym a rest := by
  have hplain : ∀ c ∈ w, c ≠ sym.comma ∧ c ≠ sym.openQuote := fun c hc => ⟨(h.2 c hc).1, (h.2 c hc).2.1⟩
  refine ⟨_, holds_word h hbefore hafter, ?_⟩
  intro rest
  rw [readArguments_bare_blanks hsym hbefore, readArguments_plain hplain, readArguments_bare_blanks hsym hafter,
    List.append_nil]

/-- After the text of a value with blanks around it, the value has been read. -/
theorem exists_holds (hsym : sym.InUse) {v : Value} (hv : v.Fits sym) {before after : List Char}
    (hbefore : Text.AllBlank before) (hafter : Text.AllBlank after) :
    ∃ a : Argument, a.Holds sym v ∧
      ∀ rest, readArguments sym (.bare []) (before ++ (v.written sym ++ (after ++ rest))) =
        readArguments sym a rest := by
  cases v with
  | int n =>
    have h := exists_holds_word hsym (isWord_intText hsym n.toInt) hbefore hafter
    rwa [Value.ofWord_intText] at h
  | bool b =>
    have h := exists_holds_word hsym (isWord_bool hsym b) hbefore hafter
    rwa [String.ofList_toList, Value.ofWord_bool] at h
  | text s =>
    refine ⟨.closed s.toList.reverse, ?_, ?_⟩
    · simpa using holds_closed s.toList.reverse
    · intro rest
      simp only [Value.written, List.cons_append, List.append_assoc, List.nil_append]
      rw [readArguments_quote hsym hbefore hv, readArguments_closed_blanks hsym hafter]
  | float x => cases hv

/-! ## All arguments -/

/-- A value as an argument and the blanks around it. -/
structure Spaced (sym : Symbols) where
  before : List Char
  value : Value
  after : List Char
  blank_before : Text.AllBlank before
  fits : value.Fits sym
  blank_after : Text.AllBlank after

namespace Spaced

def text (a : Spaced sym) : List Char := a.before ++ (a.value.written sym ++ a.after)

/-- The arguments with commas between them. -/
def joined (args : List (Spaced sym)) : List Char := [sym.comma].intercalate (args.map text)

end Spaced

/-- **Arguments are read back, whatever blanks stand around them.** -/
theorem readArguments_joined (hsym : sym.InUse) (args : List (Spaced sym)) :
    readArguments sym (.bare []) (Spaced.joined args) = .ok (args.map Spaced.value) := by
  induction args with
  | nil => rfl
  | cons a args ih =>
    obtain ⟨r, ⟨hend, hcomma⟩, hread⟩ := exists_holds hsym a.fits a.blank_before a.blank_after
    cases args with
    | nil =>
      have hlast := hread []
      rw [hend, List.append_nil] at hlast
      simpa [Spaced.joined, Spaced.text] using hlast
    | cons b args =>
      have hsplit : Spaced.joined (a :: b :: args) =
          a.before ++ (a.value.written sym ++ (a.after ++ sym.comma :: Spaced.joined (b :: args))) := by
        simp [Spaced.joined, Spaced.text, List.intercalate_cons_cons]
      rw [hsplit, hread, hcomma, ih]
      rfl

end

end SceneScript
