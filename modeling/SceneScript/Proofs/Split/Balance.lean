import SceneScript.Proofs.Text

/-!
# Quotes and brackets

A quote goes from an opening quote to the next closing quote, whatever stands between them.  `Outside` says that every
quote of a text is closed and what is left of the text without its quotes; brackets and commas count only there.
A text is balanced if every quote is closed and the brackets outside the quotes are balanced.

    QuotesClosed sym cs, or the last quote of cs is open             (quotesClosed_or_open)
    Balanced sym cs, or Overclosed sym cs, or LeftOpen sym cs, or the last quote of cs is open
                                                                     (balanced_cases)
    Balanced sym (trim cs) ↔ Balanced sym cs                         (balanced_trim_iff)
-/

namespace SceneScript

/-- The symbols that cut a list of arguments differ from each other and from blanks.  Only the closing quote may be
one of the others, as it is where both quotes are the same. -/
structure Symbols.Separate (sym : Symbols) : Prop where
  distinct : [sym.comma, sym.openBracket, sym.closeBracket, sym.openQuote].Nodup
  not_blank : ∀ c ∈ [sym.comma, sym.openBracket, sym.closeBracket, sym.openQuote, sym.closeQuote],
    Text.isBlank c = false

/-- Every quote of the text is closed, and `out` is what stands outside the quotes. -/
inductive Outside (sym : Symbols) : List Char → List Char → Prop
  | nil : Outside sym [] []
  | plain {c : Char} {cs out : List Char} :
      c ≠ sym.openQuote → Outside sym cs out → Outside sym (c :: cs) (c :: out)
  | quoted {quote cs out : List Char} : sym.closeQuote ∉ quote → Outside sym cs out →
      Outside sym (sym.openQuote :: (quote ++ sym.closeQuote :: cs)) out

/-- Every quote of the text is closed. -/
def QuotesClosed (sym : Symbols) (cs : List Char) : Prop := ∃ out, Outside sym cs out

/-- Every quote of the text is closed, and the brackets outside the quotes are balanced: no more of them are closed than
have been opened, and none is left open. -/
def Balanced (sym : Symbols) (cs : List Char) : Prop :=
  ∃ out, Outside sym cs out ∧
    (∀ before, before <+: out → before.count sym.closeBracket ≤ before.count sym.openBracket) ∧
    out.count sym.closeBracket = out.count sym.openBracket

/-- Some beginning of the text closes more brackets than it opens. -/
def Overclosed (sym : Symbols) (cs : List Char) : Prop :=
  ∃ before out, before <+: cs ∧ Outside sym before out ∧ out.count sym.openBracket < out.count sym.closeBracket

/-- Every quote of the text is closed, and a bracket is left open. -/
def LeftOpen (sym : Symbols) (cs : List Char) : Prop :=
  ∃ out, Outside sym cs out ∧ out.count sym.closeBracket < out.count sym.openBracket

/-- The character stands somewhere in the text outside quotes. -/
def StandsOutside (sym : Symbols) (c : Char) (cs : List Char) : Prop :=
  ∃ before after, cs = before ++ c :: after ∧ QuotesClosed sym before

/-- No bracket stands outside the quotes of the text. -/
def NoBrackets (sym : Symbols) (cs : List Char) : Prop :=
  ∀ b ∈ [sym.openBracket, sym.closeBracket], ¬ StandsOutside sym b cs

section

variable {sym : Symbols}

theorem Symbols.Separate.comma_ne (h : sym.Separate) :
    sym.comma ≠ sym.openBracket ∧ sym.comma ≠ sym.closeBracket ∧ sym.comma ≠ sym.openQuote := by
  simpa using (List.nodup_cons.1 h.distinct).1

theorem Symbols.Separate.openBracket_ne (h : sym.Separate) :
    sym.openBracket ≠ sym.closeBracket ∧ sym.openBracket ≠ sym.openQuote := by
  simpa using (List.nodup_cons.1 (List.nodup_cons.1 h.distinct).2).1

theorem Symbols.Separate.closeBracket_ne (h : sym.Separate) : sym.closeBracket ≠ sym.openQuote := by
  simpa using (List.nodup_cons.1 (List.nodup_cons.1 (List.nodup_cons.1 h.distinct).2).2).1

theorem Symbols.Separate.not_mem_blanks (h : sym.Separate) {c : Char}
    (hc : c ∈ [sym.comma, sym.openBracket, sym.closeBracket, sym.openQuote, sym.closeQuote]) {bs : List Char}
    (hbs : Text.AllBlank bs) : c ∉ bs := by
  intro hmem
  have := hbs c hmem
  rw [h.not_blank c hc] at this
  cases this

/-! ## Texts one after the other -/

theorem outside_self {cs : List Char} (h : sym.openQuote ∉ cs) : Outside sym cs cs := by
  induction cs with
  | nil => exact .nil
  | cons c cs ih =>
    rw [List.mem_cons, not_or] at h
    exact .plain (Ne.symm h.1) (ih h.2)

theorem Outside.append {as bs oas obs : List Char} (ha : Outside sym as oas) (hb : Outside sym bs obs) :
    Outside sym (as ++ bs) (oas ++ obs) := by
  induction ha with
  | nil => exact hb
  | plain hc _ ih => exact .plain hc ih
  | quoted hquote _ ih =>
    rw [List.cons_append, List.append_assoc, List.cons_append]
    exact .quoted hquote ih

theorem Outside.of_cons {c : Char} {cs out : List Char} (hc : c ≠ sym.openQuote) (h : Outside sym (c :: cs) out) :
    ∃ rest, Outside sym cs rest ∧ out = c :: rest := by
  generalize htext : c :: cs = text at h
  cases h with
  | nil => cases htext
  | plain _ h =>
    obtain ⟨rfl, rfl⟩ := List.cons.inj htext
    exact ⟨_, h, rfl⟩
  | quoted => exact absurd (List.cons.inj htext).1 hc

theorem Outside.of_quote {cs out : List Char} (h : Outside sym (sym.openQuote :: cs) out) :
    ∃ quote rest, cs = quote ++ sym.closeQuote :: rest ∧ sym.closeQuote ∉ quote ∧ Outside sym rest out := by
  generalize htext : sym.openQuote :: cs = text at h
  cases h with
  | nil => cases htext
  | plain hc _ => exact absurd (List.cons.inj htext).1.symm hc
  | quoted hquote h => exact ⟨_, _, (List.cons.inj htext).2, hquote, h⟩

/-- A quote ends at the first closing quote. -/
theorem append_cons_inj {b : Char} {as as' bs bs' : List Char} (h : as ++ b :: bs = as' ++ b :: bs') (ha : b ∉ as)
    (ha' : b ∉ as') : as = as' ∧ bs = bs' := by
  have hcut := cutFirst_append ha bs
  rw [h, cutFirst_append ha' bs'] at hcut
  simpa [eq_comm] using hcut

/-- What follows a text with closed quotes is read on its own. -/
theorem Outside.of_append {as bs oas out : List Char} (ha : Outside sym as oas) (h : Outside sym (as ++ bs) out) :
    ∃ obs, Outside sym bs obs ∧ out = oas ++ obs := by
  induction ha generalizing out with
  | nil => exact ⟨out, h, rfl⟩
  | plain hc _ ih =>
    obtain ⟨rest, hrest, rfl⟩ := h.of_cons hc
    obtain ⟨obs, hobs, rfl⟩ := ih hrest
    exact ⟨obs, hobs, rfl⟩
  | @quoted quote cs oas hquote _ ih =>
    rw [List.cons_append, List.append_assoc, List.cons_append] at h
    obtain ⟨quote', rest, htext, hquote', hrest⟩ := h.of_quote
    obtain ⟨-, rfl⟩ := append_cons_inj htext hquote hquote'
    exact ih hrest

theorem Outside.unique {cs out out' : List Char} (h : Outside sym cs out) (h' : Outside sym cs out') :
    out' = out := by
  rw [← List.append_nil cs] at h'
  obtain ⟨obs, hobs, rfl⟩ := h.of_append h'
  cases hobs
  exact List.append_nil out

/-- What stands first outside the quotes stands outside the quotes of a beginning of the text. -/
theorem Outside.exists_prefix {cs out before : List Char} (h : Outside sym cs out) (hbefore : before <+: out) :
    ∃ start, start <+: cs ∧ Outside sym start before := by
  induction h generalizing before with
  | nil =>
    obtain rfl := List.prefix_nil.1 hbefore
    exact ⟨[], List.nil_prefix, .nil⟩
  | @plain c cs out hc _ ih =>
    rcases List.prefix_cons_iff.1 hbefore with rfl | ⟨before, rfl, htail⟩
    · exact ⟨[], List.nil_prefix, .nil⟩
    · obtain ⟨start, hstart, houtside⟩ := ih htail
      exact ⟨c :: start, List.cons_prefix_cons.2 ⟨rfl, hstart⟩, .plain hc houtside⟩
  | @quoted quote cs out hquote _ ih =>
    obtain ⟨start, ⟨rest, rfl⟩, houtside⟩ := ih hbefore
    refine ⟨_, ⟨rest, ?_⟩, .quoted hquote houtside⟩
    simp

theorem QuotesClosed.append {as bs : List Char} (ha : QuotesClosed sym as) (hb : QuotesClosed sym bs) :
    QuotesClosed sym (as ++ bs) := by
  obtain ⟨oas, has⟩ := ha
  obtain ⟨obs, hbs⟩ := hb
  exact ⟨oas ++ obs, has.append hbs⟩

theorem QuotesClosed.of_append {as bs : List Char} (ha : QuotesClosed sym as) (h : QuotesClosed sym (as ++ bs)) :
    QuotesClosed sym bs := by
  obtain ⟨oas, has⟩ := ha
  obtain ⟨out, hout⟩ := h
  obtain ⟨obs, hobs, -⟩ := has.of_append hout
  exact ⟨obs, hobs⟩

theorem quotesClosed_of_not_mem {cs : List Char} (h : sym.openQuote ∉ cs) : QuotesClosed sym cs :=
  ⟨cs, outside_self h⟩

theorem quotesClosed_quote {quote cs : List Char} (hquote : sym.closeQuote ∉ quote) (h : QuotesClosed sym cs) :
    QuotesClosed sym (sym.openQuote :: (quote ++ sym.closeQuote :: cs)) := by
  obtain ⟨out, hout⟩ := h
  exact ⟨out, .quoted hquote hout⟩

theorem StandsOutside.append {c : Char} {cs : List Char} (h : StandsOutside sym c cs) (bs : List Char) :
    StandsOutside sym c (cs ++ bs) := by
  obtain ⟨before, after, rfl, hbefore⟩ := h
  exact ⟨before, after ++ bs, by simp, hbefore⟩

theorem StandsOutside.prepend {c : Char} {as cs : List Char} (h : StandsOutside sym c cs) (ha : QuotesClosed sym as) :
    StandsOutside sym c (as ++ cs) := by
  obtain ⟨before, after, rfl, hbefore⟩ := h
  exact ⟨as ++ before, after, by simp, ha.append hbefore⟩

theorem Outside.standsOutside {c : Char} {cs out : List Char} (h : Outside sym cs out) (hc : c ∈ out) :
    StandsOutside sym c cs := by
  induction h with
  | nil => cases hc
  | @plain d cs out hd _ ih =>
    rcases List.mem_cons.1 hc with rfl | hc
    · exact ⟨[], cs, rfl, [], .nil⟩
    · have hfirst : QuotesClosed sym [d] := quotesClosed_of_not_mem (by simpa using Ne.symm hd)
      exact (ih hc).prepend hfirst
  | @quoted quote cs out hquote _ ih =>
    have hfirst := quotesClosed_quote hquote ⟨[], .nil⟩
    simpa using (ih hc).prepend hfirst

theorem StandsOutside.mem {c : Char} {cs out : List Char} (h : StandsOutside sym c cs) (hc : c ≠ sym.openQuote)
    (hout : Outside sym cs out) : c ∈ out := by
  obtain ⟨before, after, rfl, obefore, hbefore⟩ := h
  obtain ⟨rest, hrest, rfl⟩ := hbefore.of_append hout
  obtain ⟨oafter, -, rfl⟩ := hrest.of_cons hc
  simp

/-! ## Open quotes -/

theorem not_quotesClosed_of_open {before out quote : List Char} (h : Outside sym before out)
    (hquote : sym.closeQuote ∉ quote) : ¬ QuotesClosed sym (before ++ sym.openQuote :: quote) := by
  rintro ⟨all, hall⟩
  obtain ⟨obs, hobs, -⟩ := h.of_append hall
  obtain ⟨quote', rest, rfl, -⟩ := hobs.of_quote
  simp at hquote

/-- The quotes of a text are closed, or the last of them is open. -/
theorem quotesClosed_or_open (sym : Symbols) (cs : List Char) :
    QuotesClosed sym cs ∨ ∃ before out quote, cs = before ++ sym.openQuote :: quote ∧ Outside sym before out ∧
      sym.closeQuote ∉ quote := by
  -- one quote is taken at a time, so the rest is only known to be shorter
  induction hn : cs.length using Nat.strongRecOn generalizing cs with
  | ind n ih =>
    cases cs with
    | nil => exact .inl ⟨[], .nil⟩
    | cons c cs =>
      rw [List.length_cons] at hn
      by_cases hc : c = sym.openQuote
      · subst hc
        by_cases hclose : sym.closeQuote ∈ cs
        · obtain ⟨quote, rest, rfl, hquote⟩ := List.eq_append_cons_of_mem hclose
          have hlt : rest.length < n := by
            rw [← hn]
            simp only [List.length_append, List.length_cons]
            omega
          rcases ih rest.length hlt rest rfl with ⟨out, hout⟩ | ⟨before, out, last, rfl, hout, hlast⟩
          · exact .inl ⟨out, .quoted hquote hout⟩
          · refine .inr ⟨_, out, last, ?_, .quoted hquote hout, hlast⟩
            simp
        · exact .inr ⟨[], [], cs, rfl, .nil, hclose⟩
      · rcases ih cs.length (by omega) cs rfl with ⟨out, hout⟩ | ⟨before, out, quote, rfl, hout, hquote⟩
        · exact .inl ⟨c :: out, .plain hc hout⟩
        · exact .inr ⟨c :: before, c :: out, quote, rfl, .plain hc hout, hquote⟩

/-- Characters that are no quotes may be left out at the end. -/
theorem Outside.of_append_plain {as bs out : List Char} (h : Outside sym (as ++ bs) out)
    (hopen : sym.openQuote ∉ bs) (hclose : sym.closeQuote ∉ bs) :
    ∃ oas, Outside sym as oas ∧ out = oas ++ bs := by
  rcases quotesClosed_or_open sym as with ⟨oas, has⟩ | ⟨before, obefore, quote, rfl, hbefore, hquote⟩
  · obtain ⟨obs, hobs, rfl⟩ := has.of_append h
    exact ⟨oas, has, by rw [(outside_self hopen).unique hobs]⟩
  · have hquote' : sym.closeQuote ∉ quote ++ bs := by simp [hquote, hclose]
    have hopen' := not_quotesClosed_of_open hbefore hquote'
    rw [← List.cons_append, ← List.append_assoc] at hopen'
    exact absurd ⟨out, h⟩ hopen'

/-! ## Depth of brackets -/

/-- How many brackets are open after `out`, if `depth` are open before it.  There is no answer if a bracket is closed
that is not open. -/
def depthAfter (sym : Symbols) : Nat → List Char → Option Nat
  | depth, [] => some depth
  | depth, c :: out =>
    if c = sym.openBracket then depthAfter sym (depth + 1) out
    else if c = sym.closeBracket then if depth = 0 then none else depthAfter sym (depth - 1) out
    else depthAfter sym depth out

theorem depthAfter_open (sym : Symbols) (depth : Nat) (out : List Char) :
    depthAfter sym depth (sym.openBracket :: out) = depthAfter sym (depth + 1) out := by
  rw [depthAfter, if_pos rfl]

theorem depthAfter_plain {c : Char} (hopen : c ≠ sym.openBracket) (hclose : c ≠ sym.closeBracket) (depth : Nat)
    (out : List Char) : depthAfter sym depth (c :: out) = depthAfter sym depth out := by
  rw [depthAfter, if_neg hopen, if_neg hclose]

theorem depthAfter_append (sym : Symbols) (depth : Nat) (as bs : List Char) :
    depthAfter sym depth (as ++ bs) = (depthAfter sym depth as).bind (depthAfter sym · bs) := by
  induction as generalizing depth with
  | nil => rfl
  | cons c as ih =>
    rw [List.cons_append, depthAfter, depthAfter]
    split
    · exact ih _
    · split
      · split
        · rfl
        · exact ih _
      · exact ih _

theorem depthAfter_of_forall {out : List Char} (h : ∀ c ∈ out, c ≠ sym.openBracket ∧ c ≠ sym.closeBracket)
    (depth : Nat) : depthAfter sym depth out = some depth := by
  induction out with
  | nil => rfl
  | cons c out ih =>
    have hc := h c List.mem_cons_self
    rw [depthAfter_plain hc.1 hc.2, ih fun d hd => h d (List.mem_cons_of_mem _ hd)]

theorem forall_prefix_cons {P : List Char → Prop} {c : Char} {cs : List Char} :
    (∀ before, before <+: c :: cs → P before) ↔ P [] ∧ ∀ before, before <+: cs → P (c :: before) := by
  constructor
  · intro h
    exact ⟨h [] List.nil_prefix, fun before hbefore => h _ (List.cons_prefix_cons.2 ⟨rfl, hbefore⟩)⟩
  · rintro ⟨hnil, hcons⟩ before hbefore
    rcases List.prefix_cons_iff.1 hbefore with rfl | ⟨before, rfl, htail⟩
    · exact hnil
    · exact hcons before htail

/-- The depth goes by the numbers of brackets, where on no beginning more are closed than opened. -/
theorem depthAfter_eq_some_iff (hsym : sym.openBracket ≠ sym.closeBracket) {depth left : Nat} {out : List Char} :
    depthAfter sym depth out = some left ↔
      (∀ before, before <+: out → before.count sym.closeBracket ≤ depth + before.count sym.openBracket) ∧
        out.count sym.closeBracket + left = depth + out.count sym.openBracket := by
  induction out generalizing depth with
  | nil =>
    simp only [depthAfter, List.prefix_nil, forall_eq, List.count_nil, Option.some.injEq]
    omega
  | cons c out ih =>
    rw [forall_prefix_cons]
    by_cases hopen : c = sym.openBracket
    · subst hopen
      rw [depthAfter, if_pos rfl, ih]
      simp only [List.count_cons_self, List.count_cons_of_ne hsym, List.count_nil, Nat.zero_le, true_and,
        Nat.add_assoc, Nat.add_comm 1]
    by_cases hclose : c = sym.closeBracket
    · subst hclose
      rw [depthAfter, if_neg hopen, if_pos rfl]
      simp only [List.count_cons_self, List.count_cons_of_ne hopen, List.count_nil]
      cases depth with
      | zero =>
        rw [if_pos rfl]
        constructor
        · intro h
          cases h
        · rintro ⟨⟨-, hfirst⟩, -⟩
          have := hfirst [] List.nil_prefix
          simp at this
      | succ depth =>
        rw [if_neg (Nat.succ_ne_zero depth), Nat.add_sub_cancel, ih]
        refine and_congr ⟨fun h => ⟨by omega, fun before hbefore => ?_⟩, fun h before hbefore => ?_⟩ (by omega)
        · have := h before hbefore
          omega
        · have := h.2 before hbefore
          omega
    · rw [depthAfter_plain hopen hclose, ih]
      simp only [List.count_cons_of_ne hopen, List.count_cons_of_ne hclose, List.count_nil, Nat.zero_le, true_and]

theorem depthAfter_succ (hsym : sym.openBracket ≠ sym.closeBracket) {depth left : Nat} {out : List Char}
    (h : depthAfter sym depth out = some left) : depthAfter sym (depth + 1) out = some (left + 1) := by
  rw [depthAfter_eq_some_iff hsym] at h ⊢
  refine ⟨fun before hbefore => ?_, by omega⟩
  have := h.1 before hbefore
  omega

/-! ## Balanced texts -/

theorem balanced_iff (hsym : sym.openBracket ≠ sym.closeBracket) {cs : List Char} :
    Balanced sym cs ↔ ∃ out, Outside sym cs out ∧ depthAfter sym 0 out = some 0 := by
  refine exists_congr fun out => and_congr_right fun _ => ?_
  rw [depthAfter_eq_some_iff hsym]
  simp only [Nat.zero_add, Nat.add_zero]

theorem Outside.balanced_iff (hsym : sym.openBracket ≠ sym.closeBracket) {cs out : List Char} (h : Outside sym cs out) :
    Balanced sym cs ↔ depthAfter sym 0 out = some 0 := by
  rw [SceneScript.balanced_iff hsym]
  refine ⟨fun ⟨out', hout', hdepth⟩ => ?_, fun hdepth => ⟨out, h, hdepth⟩⟩
  rwa [h.unique hout'] at hdepth

theorem Outside.not_balanced (hsym : sym.openBracket ≠ sym.closeBracket) {cs out : List Char} (h : Outside sym cs out)
    (hdepth : depthAfter sym 0 out ≠ some 0) : QuotesClosed sym cs ∧ ¬ Balanced sym cs :=
  ⟨⟨out, h⟩, fun hbalanced => hdepth ((h.balanced_iff hsym).1 hbalanced)⟩

theorem overclosed_iff (hsym : sym.openBracket ≠ sym.closeBracket) {cs : List Char} :
    Overclosed sym cs ↔ ∃ before after out, cs = before ++ after ∧ Outside sym before out ∧
      depthAfter sym 0 out = none := by
  constructor
  · rintro ⟨before, out, ⟨after, rfl⟩, hout, hlt⟩
    refine ⟨before, after, out, rfl, hout, Option.eq_none_iff_forall_ne_some.2 fun left hleft => ?_⟩
    have := ((depthAfter_eq_some_iff hsym).1 hleft).1 out (List.prefix_refl out)
    omega
  · rintro ⟨before, after, out, rfl, hout, hnone⟩
    -- if no beginning closed too many, there would be a depth
    refine Classical.byContradiction fun hover => ?_
    have hle : ∀ start, start <+: out → start.count sym.closeBracket ≤ 0 + start.count sym.openBracket := by
      intro start hstart
      obtain ⟨text, htext, houtside⟩ := hout.exists_prefix hstart
      refine Nat.le_of_not_lt fun hlt => hover ⟨text, start, ?_, houtside, by omega⟩
      exact htext.trans (List.prefix_append before after)
    have hlast := hle out (List.prefix_refl out)
    have hsome := (depthAfter_eq_some_iff hsym).2 ⟨hle, Nat.add_sub_cancel' hlast⟩
    rw [hnone] at hsome
    cases hsome

/-- A text is balanced, or fails to be so in one of three ways. -/
theorem balanced_cases (hsym : sym.openBracket ≠ sym.closeBracket) (cs : List Char) :
    Balanced sym cs ∨ Overclosed sym cs ∨ LeftOpen sym cs ∨ ¬ QuotesClosed sym cs := by
  by_cases hclosed : QuotesClosed sym cs
  · obtain ⟨out, hout⟩ := hclosed
    cases hdepth : depthAfter sym 0 out with
    | none => exact .inr (.inl ((overclosed_iff hsym).2 ⟨cs, [], out, (List.append_nil cs).symm, hout, hdepth⟩))
    | some left =>
      cases left with
      | zero => exact .inl ((balanced_iff hsym).2 ⟨out, hout, hdepth⟩)
      | succ left =>
        have := ((depthAfter_eq_some_iff hsym).1 hdepth).2
        exact .inr (.inr (.inl ⟨out, hout, by omega⟩))
  · exact .inr (.inr (.inr hclosed))

theorem Balanced.not_faulty (hsym : sym.openBracket ≠ sym.closeBracket) {cs : List Char} (h : Balanced sym cs) :
    ¬ (Overclosed sym cs ∨ LeftOpen sym cs) := by
  obtain ⟨out, hout, hdepth⟩ := (balanced_iff hsym).1 h
  rintro (hover | ⟨out', hout', hlt⟩)
  · obtain ⟨before, after, obefore, rfl, hbefore, hnone⟩ := (overclosed_iff hsym).1 hover
    obtain ⟨oafter, -, rfl⟩ := hbefore.of_append hout
    rw [depthAfter_append, hnone] at hdepth
    cases hdepth
  · obtain rfl := hout.unique hout'
    have := ((depthAfter_eq_some_iff hsym).1 hdepth).2
    omega

theorem Balanced.append (hsym : sym.openBracket ≠ sym.closeBracket) {as bs : List Char} (ha : Balanced sym as)
    (hb : Balanced sym bs) : Balanced sym (as ++ bs) := by
  rw [balanced_iff hsym] at ha hb ⊢
  obtain ⟨oas, hoas, has⟩ := ha
  obtain ⟨obs, hobs, hbs⟩ := hb
  exact ⟨oas ++ obs, hoas.append hobs, by rw [depthAfter_append, has, Option.bind_some, hbs]⟩

theorem Balanced.of_append (hsym : sym.openBracket ≠ sym.closeBracket) {as bs : List Char} (ha : Balanced sym as)
    (h : Balanced sym (as ++ bs)) : Balanced sym bs := by
  rw [balanced_iff hsym] at ha h ⊢
  obtain ⟨oas, hoas, has⟩ := ha
  obtain ⟨out, hout, hdepth⟩ := h
  obtain ⟨obs, hobs, rfl⟩ := hoas.of_append hout
  rw [depthAfter_append, has, Option.bind_some] at hdepth
  exact ⟨obs, hobs, hdepth⟩

theorem Balanced.bracketed (hsym : sym.Separate) {cs : List Char} (h : Balanced sym cs) :
    Balanced sym (sym.openBracket :: (cs ++ [sym.closeBracket])) := by
  obtain ⟨hne, hopen⟩ := hsym.openBracket_ne
  rw [balanced_iff hne] at h ⊢
  obtain ⟨out, hout, hdepth⟩ := h
  refine ⟨_, .plain hopen (hout.append (.plain hsym.closeBracket_ne .nil)), ?_⟩
  rw [depthAfter_open, depthAfter_append, depthAfter_succ hne hdepth, Option.bind_some, depthAfter, if_neg hne.symm,
    if_pos rfl, if_neg (by decide)]
  rfl

theorem depthAfter_blanks (hsym : sym.Separate) {bs : List Char} (hbs : Text.AllBlank bs) (depth : Nat) :
    depthAfter sym depth bs = some depth := by
  apply depthAfter_of_forall
  intro c hc
  have hopen : sym.openBracket ∉ bs := hsym.not_mem_blanks (by simp) hbs
  have hclose : sym.closeBracket ∉ bs := hsym.not_mem_blanks (by simp) hbs
  exact ⟨fun h => hopen (h ▸ hc), fun h => hclose (h ▸ hc)⟩

theorem outside_blanks (hsym : sym.Separate) {bs : List Char} (hbs : Text.AllBlank bs) : Outside sym bs bs :=
  outside_self (hsym.not_mem_blanks (by simp) hbs)

theorem balanced_of_blank (hsym : sym.Separate) {bs : List Char} (hbs : Text.AllBlank bs) : Balanced sym bs :=
  (balanced_iff hsym.openBracket_ne.1).2 ⟨bs, outside_blanks hsym hbs, depthAfter_blanks hsym hbs 0⟩

theorem Outside.of_append_blanks (hsym : sym.Separate) {cs bs out : List Char} (hbs : Text.AllBlank bs)
    (h : Outside sym (cs ++ bs) out) : ∃ ocs, Outside sym cs ocs ∧ out = ocs ++ bs :=
  h.of_append_plain (hsym.not_mem_blanks (by simp) hbs) (hsym.not_mem_blanks (by simp) hbs)

/-- Blanks may be left out at the end of a balanced text. -/
theorem Balanced.of_append_blanks (hsym : sym.Separate) {cs bs : List Char} (hbs : Text.AllBlank bs)
    (h : Balanced sym (cs ++ bs)) : Balanced sym cs := by
  rw [balanced_iff hsym.openBracket_ne.1] at h ⊢
  obtain ⟨out, hout, hdepth⟩ := h
  obtain ⟨ocs, hocs, rfl⟩ := hout.of_append_blanks hsym hbs
  refine ⟨ocs, hocs, ?_⟩
  rw [depthAfter_append] at hdepth
  obtain ⟨left, hleft, hdepth⟩ := Option.bind_eq_some_iff.1 hdepth
  rwa [depthAfter_blanks hsym hbs, ← hleft] at hdepth

theorem balanced_blanks_append_iff (hsym : sym.Separate) {bs cs : List Char} (hbs : Text.AllBlank bs) :
    Balanced sym (bs ++ cs) ↔ Balanced sym cs :=
  ⟨(balanced_of_blank hsym hbs).of_append hsym.openBracket_ne.1,
    (balanced_of_blank hsym hbs).append hsym.openBracket_ne.1⟩

theorem quotesClosed_blanks_append_iff (hsym : sym.Separate) {bs cs : List Char} (hbs : Text.AllBlank bs) :
    QuotesClosed sym (bs ++ cs) ↔ QuotesClosed sym cs := by
  have hblank : QuotesClosed sym bs := ⟨bs, outside_blanks hsym hbs⟩
  exact ⟨hblank.of_append, hblank.append⟩

theorem QuotesClosed.of_append_blanks (hsym : sym.Separate) {cs bs : List Char} (hbs : Text.AllBlank bs)
    (h : QuotesClosed sym (cs ++ bs)) : QuotesClosed sym cs := by
  obtain ⟨out, hout⟩ := h
  obtain ⟨ocs, hocs, -⟩ := hout.of_append_blanks hsym hbs
  exact ⟨ocs, hocs⟩

theorem QuotesClosed.trim (hsym : sym.Separate) {cs : List Char} (h : QuotesClosed sym cs) :
    QuotesClosed sym (Text.trim cs) := by
  obtain ⟨as, bs, has, hbs, hcs⟩ := Text.exists_trim cs
  rw [hcs, quotesClosed_blanks_append_iff hsym has] at h
  exact h.of_append_blanks hsym hbs

theorem balanced_trim_iff (hsym : sym.Separate) {cs : List Char} : Balanced sym (Text.trim cs) ↔ Balanced sym cs := by
  obtain ⟨as, bs, has, hbs, hcs⟩ := Text.exists_trim cs
  constructor
  · intro h
    rw [hcs, balanced_blanks_append_iff hsym has]
    exact h.append hsym.openBracket_ne.1 (balanced_of_blank hsym hbs)
  · intro h
    rw [hcs, balanced_blanks_append_iff hsym has] at h
    exact h.of_append_blanks hsym hbs

/-! ## Texts without brackets -/

theorem noBrackets_of_not_mem {cs : List Char} (hopen : sym.openBracket ∉ cs) (hclose : sym.closeBracket ∉ cs) :
    NoBrackets sym cs := by
  rintro b hb ⟨before, after, rfl, -⟩
  have hmem : b ∈ before ++ b :: after := by simp
  rcases List.mem_cons.1 hb with rfl | hb
  · exact hopen hmem
  · obtain rfl := List.mem_singleton.1 hb
    exact hclose hmem

theorem NoBrackets.of_append {cs bs : List Char} (h : NoBrackets sym (cs ++ bs)) : NoBrackets sym cs :=
  fun b hb hstands => h b hb (hstands.append bs)

theorem NoBrackets.of_prepend {as cs : List Char} (h : NoBrackets sym (as ++ cs)) (ha : QuotesClosed sym as) :
    NoBrackets sym cs :=
  fun b hb hstands => h b hb (hstands.prepend ha)

theorem NoBrackets.trim (hsym : sym.Separate) {cs : List Char} (h : NoBrackets sym cs) :
    NoBrackets sym (Text.trim cs) := by
  obtain ⟨as, bs, has, -, hcs⟩ := Text.exists_trim cs
  rw [hcs] at h
  exact (h.of_prepend ⟨as, outside_blanks hsym has⟩).of_append

theorem NoBrackets.depthAfter {cs out : List Char} (h : NoBrackets sym cs) (hout : Outside sym cs out) (depth : Nat) :
    depthAfter sym depth out = some depth := by
  apply depthAfter_of_forall
  rintro c hc
  have hstands := hout.standsOutside hc
  constructor
  · rintro rfl
    exact h _ (by simp) hstands
  · rintro rfl
    exact h _ (by simp) hstands

theorem NoBrackets.not_overclosed (hsym : sym.Separate) {cs : List Char} (h : NoBrackets sym cs) :
    ¬ Overclosed sym cs := by
  intro hover
  obtain ⟨before, after, out, rfl, hout, hnone⟩ := (overclosed_iff hsym.openBracket_ne.1).1 hover
  rw [h.of_append.depthAfter hout] at hnone
  cases hnone

theorem NoBrackets.balanced (hsym : sym.Separate) {cs : List Char} (h : NoBrackets sym cs)
    (hquotes : QuotesClosed sym cs) : Balanced sym cs := by
  obtain ⟨out, hout⟩ := hquotes
  exact (balanced_iff hsym.openBracket_ne.1).2 ⟨out, hout, h.depthAfter hout 0⟩

end

end SceneScript
