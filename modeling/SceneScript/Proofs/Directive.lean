import SceneScript.Directive

/-!
# What directives declare

Directives are applied one after another.  The last file name counts and the inputs add up, so only the order of the
file names matters.  The first directive that cannot be applied stops the rest, and what was declared before it
stays.

    all directives valid → Declares lang ds p (applyAll lang p ds).1           (declares_of_valid)
    d the first invalid one → applyAll lang p (before ++ d :: after) =
      ((applyAll lang p before).1, some (d.fault lang))                        (applyAll_of_invalid)
-/

namespace SceneScript

/-! ## Sets of names -/

namespace NameSet

theorem mem_insertAll (s : NameSet) (names : List String) (x : String) :
    x ∈ (s.insertAll names).toList ↔ x ∈ s.toList ∨ x ∈ names := by
  induction names generalizing s with
  | nil => simp [insertAll]
  | cons name names ih =>
    have hinsert : x ∈ (s.insert name).toList ↔ x = name ∨ x ∈ s.toList := mem_insertName x name s.toList
    rw [insertAll, List.foldl_cons, ← insertAll, ih, hinsert, List.mem_cons, or_assoc, or_left_comm]

theorem nodup (s : NameSet) : s.toList.Nodup := by
  refine s.ascending.imp ?_
  rintro a _ hlt rfl
  exact String.lt_irrefl a hlt

/-- Sets with the same members are the same. -/
theorem ext_mem {s t : NameSet} (h : ∀ x, x ∈ s.toList ↔ x ∈ t.toList) : s = t := by
  have hperm : s.toList.Perm t.toList := (List.perm_ext_iff_of_nodup s.nodup t.nodup).2 h
  have hlist : s.toList = t.toList := by
    refine hperm.eq_of_pairwise (fun a b _ _ hab hba => ?_) s.ascending t.ascending
    exact absurd hba (String.lt_asymm hab)
  cases s
  cases t
  cases hlist
  rfl

end NameSet

namespace Directive

/-- The directive can be applied: the language knows its name, and it has an argument. -/
def Valid (lang : Language) (d : Directive) : Prop := (lang.directive? d.name).isSome = true ∧ d.args ≠ []

instance (lang : Language) (d : Directive) : Decidable (d.Valid lang) := inferInstanceAs (Decidable (_ ∧ _))

/-- The fault of a directive that cannot be applied.  An unknown name counts before a missing argument. -/
def fault (lang : Language) (d : Directive) : Fault :=
  if lang.directive? d.name = none then .noSuchDirective d.name else .missingDirectiveArgument d.name

/-- The directives of that kind, in their order. -/
def ofKind (lang : Language) (kind : DirectiveKind) (ds : List Directive) : List Directive :=
  ds.filter fun d => lang.directive? d.name = some kind

/-- `q` is `p` with what the directives declare. -/
structure Declares (lang : Language) (ds : List Directive) (p q : Program) : Prop where
  code : q.code = p.code
  /-- The first argument of the last directive for the file name, if there is one. -/
  file : q.file = (((ofKind lang .file ds).getLast?).bind fun d => d.args.head?).getD p.file
  inputs : ∀ x, x ∈ q.inputs.toList ↔ x ∈ p.inputs.toList ∨ ∃ d ∈ ofKind lang .input ds, x ∈ d.args

variable {lang : Language}

/-! ## One directive -/

theorem apply_of_invalid {d : Directive} (h : ¬d.Valid lang) (p : Program) :
    apply lang p d = .error (d.fault lang) := by
  unfold apply fault
  cases hkind : lang.directive? d.name with
  | none => rfl
  | some kind =>
    have hargs : d.args = [] := by simpa [Valid, hkind] using h
    rw [hargs]
    rfl

theorem apply_of_valid {d : Directive} (h : d.Valid lang) (p : Program) :
    ∃ q, apply lang p d = .ok q ∧ Declares lang [d] p q := by
  obtain ⟨hknown, hargs⟩ := h
  obtain ⟨kind, hkind⟩ := Option.isSome_iff_exists.1 hknown
  obtain ⟨a, args, hargs⟩ := List.exists_cons_of_ne_nil hargs
  cases kind with
  | file =>
    refine ⟨{ p with file := a }, by simp [apply, hkind, hargs], rfl, ?_, ?_⟩
    · simp [ofKind, hkind, hargs]
    · simp [ofKind, hkind]
  | input =>
    refine ⟨{ p with inputs := p.inputs.insertAll d.args }, by simp [apply, hkind, hargs], rfl, ?_, ?_⟩
    · simp [ofKind, hkind]
    · simp [ofKind, hkind, NameSet.mem_insertAll]

/-! ## One after another -/

theorem ofKind_append (kind : DirectiveKind) (ds es : List Directive) :
    ofKind lang kind (ds ++ es) = ofKind lang kind ds ++ ofKind lang kind es :=
  List.filter_append ds es

/-- What is declared in turn is declared together. -/
theorem Declares.append {ds es : List Directive} {p q r : Program} (hes : ∀ e ∈ es, e.args ≠ [])
    (h : Declares lang ds p q) (h' : Declares lang es q r) : Declares lang (ds ++ es) p r where
  code := h'.code.trans h.code
  file := by
    rw [h'.file, h.file, ofKind_append, List.getLast?_append]
    cases hlast : (ofKind lang .file es).getLast? with
    | none => simp
    | some e =>
      -- the last directive has an argument, so the earlier file name does not count
      have he : e.args ≠ [] := hes e (List.mem_filter.1 (List.mem_of_getLast? hlast)).1
      obtain ⟨a, args, hargs⟩ := List.exists_cons_of_ne_nil he
      simp [hargs]
  inputs := by
    intro x
    rw [h'.inputs, h.inputs, ofKind_append, or_assoc]
    simp only [List.mem_append, or_and_right, exists_or]

theorem applyAll_cons_of_apply {d : Directive} {p q : Program} (h : apply lang p d = .ok q) (ds : List Directive) :
    applyAll lang p (d :: ds) = applyAll lang q ds := by
  rw [applyAll, h]

/-- Valid directives are applied, one after another. -/
theorem applyAll_append_of_valid {ds : List Directive} (h : ∀ d ∈ ds, d.Valid lang) (p : Program)
    (es : List Directive) :
    applyAll lang p (ds ++ es) = applyAll lang (applyAll lang p ds).1 es ∧
      Declares lang ds p (applyAll lang p ds).1 := by
  induction ds generalizing p with
  | nil => exact ⟨rfl, rfl, rfl, by simp [ofKind, applyAll]⟩
  | cons d ds ih =>
    have hds : ∀ d' ∈ ds, d'.Valid lang := fun d' hd' => h d' (List.mem_cons_of_mem _ hd')
    obtain ⟨q, happly, hq⟩ := apply_of_valid (h d List.mem_cons_self) p
    obtain ⟨hrest, hdeclares⟩ := ih hds q
    rw [List.cons_append, applyAll_cons_of_apply happly, applyAll_cons_of_apply happly]
    exact ⟨hrest, hq.append (fun d' hd' => (hds d' hd').2) hdeclares⟩

theorem declares_of_valid {ds : List Directive} (h : ∀ d ∈ ds, d.Valid lang) (p : Program) :
    (applyAll lang p ds).2 = none ∧ Declares lang ds p (applyAll lang p ds).1 := by
  obtain ⟨happend, hdeclares⟩ := applyAll_append_of_valid h p []
  rw [List.append_nil] at happend
  exact ⟨by rw [happend]; rfl, hdeclares⟩

/-- The first directive that cannot be applied stops the rest. -/
theorem applyAll_of_invalid {before : List Directive} (hbefore : ∀ d ∈ before, d.Valid lang) {d : Directive}
    (hd : ¬d.Valid lang) (p : Program) (after : List Directive) :
    applyAll lang p (before ++ d :: after) = ((applyAll lang p before).1, some (d.fault lang)) := by
  rw [(applyAll_append_of_valid hbefore p _).1, applyAll, apply_of_invalid hd]

theorem exists_first_invalid {ds : List Directive} (h : ¬∀ d ∈ ds, d.Valid lang) :
    ∃ before d after, ds = before ++ d :: after ∧ (∀ d' ∈ before, d'.Valid lang) ∧ ¬d.Valid lang := by
  induction ds with
  | nil => simp at h
  | cons d ds ih =>
    by_cases hd : d.Valid lang
    · obtain ⟨before, e, after, rfl, hbefore, he⟩ := ih fun hds => h (List.forall_mem_cons.2 ⟨hd, hds⟩)
      exact ⟨d :: before, e, after, rfl, List.forall_mem_cons.2 ⟨hd, hbefore⟩, he⟩
    · exact ⟨[], d, ds, rfl, by simp, hd⟩

/-- What is declared does not depend on the order, but for the order of the file names. -/
theorem Declares.unique_of_perm {ds es : List Directive} {p q r : Program} (hperm : ds.Perm es)
    (hfile : ofKind lang .file ds = ofKind lang .file es) (h : Declares lang ds p q) (h' : Declares lang es p r) :
    q = r := by
  have hinputs : q.inputs = r.inputs := by
    refine NameSet.ext_mem fun x => ?_
    rw [h.inputs, h'.inputs]
    simp only [ofKind, List.mem_filter, hperm.mem_iff]
  have hcode : q.code = r.code := h.code.trans h'.code.symm
  have hname : q.file = r.file := by rw [h.file, h'.file, hfile]
  cases q
  cases r
  cases hinputs
  cases hcode
  cases hname
  rfl

/-- **The effect of directives.**  They apply exactly if all of them are valid, and then they declare the last file name
and all inputs, in whatever order the others come; otherwise the first one that is not valid gives the fault, and
the program is what the directives before it make of it. -/
theorem applyAll_effect (lang : Language) (p : Program) (ds : List Directive) :
    ((applyAll lang p ds).2 = none ↔ ∀ d ∈ ds, d.Valid lang) ∧
    ((∀ d ∈ ds, d.Valid lang) →
      Declares lang ds p (applyAll lang p ds).1 ∧
      ∀ es : List Directive, es.Perm ds → ofKind lang .file es = ofKind lang .file ds →
        applyAll lang p es = applyAll lang p ds) ∧
    ((¬∀ d ∈ ds, d.Valid lang) →
      ∃ before d after, ds = before ++ d :: after ∧ (∀ d' ∈ before, d'.Valid lang) ∧ ¬d.Valid lang ∧
        applyAll lang p ds = ((applyAll lang p before).1, some (d.fault lang))) := by
  have hstop : (¬∀ d ∈ ds, d.Valid lang) →
      ∃ before d after, ds = before ++ d :: after ∧ (∀ d' ∈ before, d'.Valid lang) ∧ ¬d.Valid lang ∧
        applyAll lang p ds = ((applyAll lang p before).1, some (d.fault lang)) := by
    intro h
    obtain ⟨before, d, after, rfl, hbefore, hd⟩ := exists_first_invalid h
    exact ⟨before, d, after, rfl, hbefore, hd, applyAll_of_invalid hbefore hd p after⟩
  refine ⟨⟨fun hnone => ?_, fun h => (declares_of_valid h p).1⟩, fun h => ?_, hstop⟩
  · refine Decidable.byContradiction fun h => ?_
    obtain ⟨before, d, after, -, -, -, heq⟩ := hstop h
    rw [heq] at hnone
    cases hnone
  · obtain ⟨hnone, hdeclares⟩ := declares_of_valid h p
    refine ⟨hdeclares, fun es hperm hfile => ?_⟩
    have hes : ∀ e ∈ es, e.Valid lang := fun e he => h e (hperm.mem_iff.1 he)
    obtain ⟨hnone', hdeclares'⟩ := declares_of_valid hes p
    exact Prod.ext (hdeclares'.unique_of_perm hperm hfile hdeclares) (hnone'.trans hnone.symm)

/-- Directives that declare a file name twice and an input twice. -/
def colophon : List Directive :=
  [⟨"input", ["Plum", "Mei"]⟩, ⟨"file", ["Draft", "Copy"]⟩, ⟨"input", ["Plum"]⟩, ⟨"file", ["Final"]⟩]

theorem applyAll_effect_colophon :
    (∀ d ∈ colophon, d.Valid .english) ∧
      Declares .english colophon (.ofCode []) (applyAll .english (.ofCode []) colophon).1 ∧
      (applyAll .english (.ofCode []) colophon).1.file = "Final" ∧
      applyAll .english (.ofCode [])
        [⟨"file", ["Draft", "Copy"]⟩, ⟨"input", ["Plum"]⟩, ⟨"file", ["Final"]⟩, ⟨"input", ["Plum", "Mei"]⟩] =
          applyAll .english (.ofCode []) colophon ∧
      ∃ before d after, [⟨"author", []⟩, ⟨"file", []⟩] = before ++ d :: after ∧
        (∀ d' ∈ before, d'.Valid .english) ∧ ¬d.Valid .english ∧
        applyAll .english (.ofCode []) [⟨"author", []⟩, ⟨"file", []⟩] =
          ((applyAll .english (.ofCode []) before).1, some (d.fault .english)) := by
  have hvalid : ∀ d ∈ colophon, d.Valid .english := by decide
  obtain ⟨-, heffect, -⟩ := applyAll_effect .english (.ofCode []) colophon
  obtain ⟨hdeclares, horder⟩ := heffect hvalid
  obtain ⟨-, -, hstop⟩ := applyAll_effect .english (.ofCode []) [⟨"author", []⟩, ⟨"file", []⟩]
  refine ⟨hvalid, hdeclares, hdeclares.file, horder _ ?_ (by decide), hstop (by decide)⟩
  decide

end Directive

end SceneScript
