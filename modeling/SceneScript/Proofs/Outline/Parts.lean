import SceneScript.Outline
import SceneScript.Proofs.Collect

/-!
# The parts of a script

Lines are divided into parts: a line outside the sections, or the lines of a section from its header to its
last line.  Lines have an outline exactly if they can be divided into parts with different names, and the outline
then holds the sections, the lines that start with a symbol and the other lines outside, each in the order of the
script.  Other lines have a first one that offends, or end inside a section.

    ofLines sym lines = .ok o ↔ ∃ d : Division sym, d.lines = lines ∧ d.outline = o
    ofLines sym lines = .error fault ↔ a first line offends, or the lines end inside a section
                                                                     (ofLines_iff_division)

The lines are followed from left to right: `Reading` tells the three places where one can be after some lines, a
line leads from one place to another (`Reading.step`), and each place tells what the scan gives from there on.
-/

namespace SceneScript

/-- Outside the sections, the line is the header of a section of that name. -/
def Section.IsHeader (sym : Symbols) (line name : String) : Prop :=
  Line.startsWithAny sym.lineStarts line = false ∧ header? sym line = some name

namespace Outline

/-- The lines of a section, from its header to its last line. -/
structure Enclosed (sym : Symbols) where
  header : String
  inner : Section
  ending : String
  opens : Section.IsHeader sym header inner.name
  stays : ∀ line ∈ inner.lines, Section.ending? sym line = none
  closes : Section.ending? sym ending = some inner.name

def Enclosed.lines {sym : Symbols} (e : Enclosed sym) : List String := e.header :: (e.inner.lines ++ [e.ending])

/-- The line belongs to no section if none is open: it starts with a symbol or is no header. -/
def IsOutside (sym : Symbols) (line : String) : Prop :=
  Line.startsWithAny sym.lineStarts line = true ∨ Section.header? sym line = none

/-- A part of a script. -/
inductive Part (sym : Symbols) where
  | line (text : String) (outside : IsOutside sym text)
  | enclosed (e : Enclosed sym)

namespace Part

variable {sym : Symbols}

def lines : Part sym → List String
  | line text _ => [text]
  | enclosed e => e.lines

def section? : Part sym → Option Section
  | line _ _ => none
  | enclosed e => some e.inner

def outside? : Part sym → Option String
  | line text _ => some text
  | enclosed _ => none

/-- The names of the sections among the parts. -/
def names (parts : List (Part sym)) : List String := (parts.filterMap section?).map Section.name

/-- The outline of a script with these parts. -/
def outline (parts : List (Part sym)) : Outline where
  sections := parts.filterMap section?
  rest := (parts.filterMap outside?).filter (Line.startsWithAny sym.lineStarts)
  dropped := (parts.filterMap outside?).filter fun line => !Line.startsWithAny sym.lineStarts line

end Part

/-- Parts with different names, none of them the main one. -/
structure Division (sym : Symbols) where
  parts : List (Part sym)
  nodup : (Part.names parts).Nodup
  not_main : mainName ∉ Part.names parts

namespace Division

variable {sym : Symbols}

def lines (d : Division sym) : List String := d.parts.flatMap Part.lines

def names (d : Division sym) : List String := Part.names d.parts

def outline (d : Division sym) : Outline := Part.outline d.parts

end Division

/-- A division and a section after it that has not ended. -/
structure Opening (sym : Symbols) where
  before : Division sym
  header : String
  inner : Section
  opens : Section.IsHeader sym header inner.name
  fresh : ¬(inner.name = mainName ∨ inner.name ∈ before.names)
  stays : ∀ line ∈ inner.lines, Section.ending? sym line = none

def Opening.lines {sym : Symbols} (p : Opening sym) : List String := p.before.lines ++ p.header :: p.inner.lines

/-- After the lines `before`, the line leads to the fault: it is a header whose name is taken, or it
ends a section of another name. -/
inductive Offends (sym : Symbols) : List String → String → Fault → Prop
  | header (d : Division sym) {line name : String} (opens : Section.IsHeader sym line name)
      (taken : name = mainName ∨ name ∈ d.names) : Offends sym d.lines line (.duplicateBlock name)
  | ending (p : Opening sym) {line name : String} (ends : Section.ending? sym line = some name)
      (other : name ≠ p.inner.name) : Offends sym p.lines line (.mismatchedSectionEnd p.inner.name name)

/-- Where one can be after the lines of a script. -/
inductive Reading (sym : Symbols) : List String → Prop
  | outside (d : Division sym) : Reading sym d.lines
  | inside (p : Opening sym) : Reading sym p.lines
  | faulty {before : List String} {line : String} {fault : Fault} (after : List String) :
      Offends sym before line fault → Reading sym (before ++ line :: after)

section

variable {sym : Symbols}

/-! ## One line more -/

theorem Part.names_append (as bs : List (Part sym)) : names (as ++ bs) = names as ++ names bs := by
  simp [names]

@[simp] theorem Part.names_line {text : String} (outside : IsOutside sym text) : names [line text outside] = [] := rfl

@[simp] theorem Part.names_enclosed (e : Enclosed sym) : names [enclosed e] = [e.inner.name] := rfl

/-- The division with a line outside the sections after it. -/
def Division.addLine (d : Division sym) (text : String) (outside : IsOutside sym text) : Division sym where
  parts := d.parts ++ [.line text outside]
  nodup := by
    rw [Part.names_append, Part.names_line, List.append_nil]
    exact d.nodup
  not_main := by
    rw [Part.names_append, Part.names_line, List.append_nil]
    exact d.not_main

theorem Division.lines_addLine (d : Division sym) {text : String} (outside : IsOutside sym text) :
    (d.addLine text outside).lines = d.lines ++ [text] := by
  simp [lines, addLine, Part.lines]

/-- The section with a line more. -/
def Opening.addLine (p : Opening sym) (line : String) (h : Section.ending? sym line = none) : Opening sym where
  before := p.before
  header := p.header
  inner := ⟨p.inner.name, p.inner.lines ++ [line]⟩
  opens := p.opens
  fresh := p.fresh
  stays := by
    intro l hl
    rcases List.mem_append.1 hl with hl | hl
    · exact p.stays l hl
    · rwa [List.mem_singleton.1 hl]

theorem Opening.lines_addLine (p : Opening sym) {line : String} (h : Section.ending? sym line = none) :
    (p.addLine line h).lines = p.lines ++ [line] := by
  simp [lines, addLine]

/-- The division that the last line of the section leads to. -/
def Opening.close (p : Opening sym) (ending : String) (h : Section.ending? sym ending = some p.inner.name) :
    Division sym where
  parts := p.before.parts ++ [.enclosed ⟨p.header, p.inner, ending, p.opens, p.stays, h⟩]
  nodup := by
    have hfresh : p.inner.name ∉ Part.names p.before.parts := fun hmem => p.fresh (.inr hmem)
    rw [Part.names_append, Part.names_enclosed, List.nodup_append]
    refine ⟨p.before.nodup, by simp, ?_⟩
    intro name hname other hother
    rw [List.mem_singleton.1 hother]
    rintro rfl
    exact hfresh hname
  not_main := by
    rw [Part.names_append, Part.names_enclosed, List.mem_append, List.mem_singleton, not_or]
    exact ⟨p.before.not_main, fun hmain => p.fresh (.inl hmain.symm)⟩

theorem Opening.lines_close (p : Opening sym) {ending : String}
    (h : Section.ending? sym ending = some p.inner.name) : (p.close ending h).lines = p.lines ++ [ending] := by
  simp [Division.lines, close, lines, Part.lines, Enclosed.lines]

/-- A line leads from one place to another. -/
theorem Reading.step {lines : List String} (h : Reading sym lines) (line : String) :
    Reading sym (lines ++ [line]) := by
  cases h with
  | outside d =>
    by_cases houtside : IsOutside sym line
    · rw [← d.lines_addLine houtside]
      exact .outside _
    · unfold IsOutside at houtside
      rw [not_or, Bool.not_eq_true, ← ne_eq, Option.ne_none_iff_exists'] at houtside
      obtain ⟨hstart, name, hname⟩ := houtside
      by_cases htaken : name = mainName ∨ name ∈ d.names
      · exact .faulty [] (.header d ⟨hstart, hname⟩ htaken)
      · exact .inside ⟨d, line, ⟨name, []⟩, ⟨hstart, hname⟩, htaken, by simp⟩
  | inside p =>
    cases hending : Section.ending? sym line with
    | none =>
      rw [← p.lines_addLine hending]
      exact .inside _
    | some name =>
      by_cases hname : name = p.inner.name
      · rw [← p.lines_close (hname ▸ hending)]
        exact .outside _
      · exact .faulty [] (.ending p hending hname)
  | faulty after h =>
    rw [List.append_assoc, List.cons_append]
    exact .faulty (after ++ [line]) h

theorem Reading.run {before : List String} (h : Reading sym before) (lines : List String) :
    Reading sym (before ++ lines) := by
  induction lines generalizing before with
  | nil => simpa using h
  | cons line lines ih =>
    rw [← List.singleton_append, ← List.append_assoc]
    exact ih (h.step line)

/-- After any lines one is in one of the places. -/
theorem reading (sym : Symbols) (lines : List String) : Reading sym lines :=
  (Reading.outside ⟨[], by simp [Part.names], by simp [Part.names]⟩).run lines

/-! ## What the scan gives -/

section

-- the lemmas up to `scan_taken` open the scan; later proofs go by these lemmas
attribute [local simp] scan

/-- Which of the taken names came first does not matter. -/
theorem scan_congr {used used' : List String} (h : ∀ name, name ∈ used ↔ name ∈ used') (opened : Option Section)
    (lines : List String) : scan sym opened used lines = scan sym opened used' lines := by
  induction lines generalizing opened used used' with
  | nil => cases opened <;> rfl
  | cons line lines ih =>
    cases opened with
    | some s =>
      rw [scan, scan]
      cases Section.ending? sym line with
      | none => exact ih h _
      | some name =>
        have hcons : ∀ other, other ∈ name :: used ↔ other ∈ name :: used' := by
          intro other
          rw [List.mem_cons, List.mem_cons, h]
        simp only [ih hcons]
    | none =>
      rw [scan, scan, ih h none]
      cases Section.header? sym line with
      | none => rfl
      | some name => simp only [h name, ih h]

/-- Lines that do not end it go to the open section. -/
theorem scan_stays {name : String} {body : List String} (hbody : ∀ line ∈ body, Section.ending? sym line = none)
    (before used lines : List String) :
    scan sym (some ⟨name, before⟩) used (body ++ lines) = scan sym (some ⟨name, before ++ body⟩) used lines := by
  induction body generalizing before with
  | nil => simp
  | cons line body ih =>
    rw [List.cons_append, scan, hbody line List.mem_cons_self]
    simp only
    rw [ih (fun l hl => hbody l (List.mem_cons_of_mem _ hl)), List.append_assoc, List.singleton_append]

theorem scan_ending {s : Section} {ending : String} (h : Section.ending? sym ending = some s.name)
    (used lines : List String) :
    scan sym (some s) used (ending :: lines) = (scan sym none (s.name :: used) lines).map (addSection s) := by
  simp [h]

theorem scan_header {line name : String} (h : Section.IsHeader sym line name) {used : List String}
    (hfresh : ¬(name = mainName ∨ name ∈ used)) (lines : List String) :
    scan sym none used (line :: lines) = scan sym (some ⟨name, []⟩) used lines := by
  rw [scan, h.1, h.2]
  simp only [Bool.false_eq_true, if_false, if_neg hfresh]

theorem scan_taken {line name : String} (h : Section.IsHeader sym line name) {used : List String}
    (htaken : name = mainName ∨ name ∈ used) (lines : List String) :
    scan sym none used (line :: lines) = .error (.duplicateBlock name) := by
  rw [scan, h.1, h.2]
  simp only [Bool.false_eq_true, if_false, if_pos htaken]

end

/-- One outline after another. -/
def append (a b : Outline) : Outline := ⟨a.sections ++ b.sections, a.rest ++ b.rest, a.dropped ++ b.dropped⟩

theorem append_empty (a : Outline) : a.append empty = a := by
  simp [append, empty]

theorem map_append_append (a b : Outline) (x : Except Fault Outline) :
    (x.map b.append).map a.append = x.map (a.append b).append := by
  cases x <;> simp [Except.map, append]

@[simp] theorem Part.sections_line {text : String} (outside : IsOutside sym text) :
    (outline [line text outside]).sections = [] := rfl

@[simp] theorem Part.outline_enclosed (e : Enclosed sym) : outline [enclosed e] = ⟨[e.inner], [], []⟩ := rfl

theorem Part.outline_append (as bs : List (Part sym)) : outline (as ++ bs) = (outline as).append (outline bs) := by
  simp [outline, append]

/-- The scan goes through the lines of a part. -/
theorem scan_part (p : Part sym) {used : List String}
    (hfresh : ∀ name ∈ Part.names [p], ¬(name = mainName ∨ name ∈ used)) (rest : List String) :
    scan sym none used (p.lines ++ rest) =
      (scan sym none (Part.names [p] ++ used) rest).map (Part.outline [p]).append := by
  cases p with
  | line text outside =>
    rw [Part.lines, List.singleton_append, scan]
    by_cases hstart : Line.startsWithAny sym.lineStarts text = true
    · have hadd : addRest text = (Part.outline [.line text outside]).append := by
        funext o
        simp [addRest, append, Part.outline, Part.section?, Part.outside?, hstart]
      rw [if_pos hstart, hadd]
      rfl
    · have hadd : addDropped text = (Part.outline [.line text outside]).append := by
        funext o
        simp [addDropped, append, Part.outline, Part.section?, Part.outside?, hstart]
      rw [if_neg hstart, outside.resolve_left hstart, hadd]
      rfl
  | enclosed e =>
    have hname : ¬(e.inner.name = mainName ∨ e.inner.name ∈ used) :=
      hfresh _ (by simp)
    rw [Part.lines, Enclosed.lines, List.cons_append, List.append_assoc, scan_header e.opens hname,
      scan_stays e.stays, List.nil_append, List.singleton_append, scan_ending e.closes]
    rfl

/-- The scan goes through the lines of parts with different names. -/
theorem scan_parts {parts : List (Part sym)} (hnodup : (Part.names parts).Nodup) {used : List String}
    (hfresh : ∀ name ∈ Part.names parts, ¬(name = mainName ∨ name ∈ used)) (rest : List String) :
    scan sym none used (parts.flatMap Part.lines ++ rest) =
      (scan sym none (Part.names parts ++ used) rest).map (Part.outline parts).append := by
  induction parts generalizing used with
  | nil =>
    have hnil : (Part.outline ([] : List (Part sym))).append = id := rfl
    rw [hnil, Except.map_id]
    rfl
  | cons p parts ih =>
    rw [← List.singleton_append, Part.names_append] at hnodup hfresh
    obtain ⟨-, hnodup', hapart⟩ := List.nodup_append.1 hnodup
    have hhead : ∀ name ∈ Part.names [p], ¬(name = mainName ∨ name ∈ used) :=
      fun name hname => hfresh name (List.mem_append_left _ hname)
    have htail : ∀ name ∈ Part.names parts, ¬(name = mainName ∨ name ∈ Part.names [p] ++ used) := by
      intro name hname
      have hused := hfresh name (List.mem_append_right _ hname)
      rw [not_or] at hused
      rw [List.mem_append, not_or, not_or]
      exact ⟨hused.1, fun hmem => hapart name hmem name hname rfl, hused.2⟩
    have horder : ∀ name, name ∈ Part.names parts ++ (Part.names [p] ++ used) ↔
        name ∈ Part.names ([p] ++ parts) ++ used := by
      intro name
      simp only [Part.names_append, List.mem_append]
      rw [or_left_comm, or_assoc]
    rw [List.flatMap_cons, List.append_assoc, scan_part p hhead, ih hnodup' htail, map_append_append,
      scan_congr horder, ← Part.outline_append]
    rfl

/-- After a division the scan goes on outside the sections. -/
theorem Division.ofLines_append (d : Division sym) (rest : List String) :
    ofLines sym (d.lines ++ rest) = (scan sym none d.names rest).map d.outline.append := by
  have hfresh : ∀ name ∈ Part.names d.parts, ¬(name = mainName ∨ name ∈ []) := by
    rintro name hname (rfl | hnil)
    · exact d.not_main hname
    · cases hnil
  have hscan := scan_parts d.nodup hfresh rest
  rwa [List.append_nil] at hscan

theorem Division.ofLines_lines (d : Division sym) : ofLines sym d.lines = .ok d.outline := by
  have h := d.ofLines_append []
  rwa [List.append_nil, scan, Except.map, append_empty] at h

/-- After an opening the scan goes on inside the section. -/
theorem Opening.ofLines_append (p : Opening sym) (rest : List String) :
    ofLines sym (p.lines ++ rest) =
      (scan sym (some p.inner) p.before.names rest).map p.before.outline.append := by
  rw [lines, List.append_assoc, p.before.ofLines_append, List.cons_append, scan_header p.opens p.fresh,
    scan_stays p.stays, List.nil_append]

theorem Opening.ofLines_lines (p : Opening sym) :
    ofLines sym p.lines = .error (.unterminatedSection p.inner.name) := by
  have h := p.ofLines_append []
  rwa [List.append_nil, scan, Except.map] at h

theorem Offends.ofLines_append {before : List String} {line : String} {fault : Fault}
    (h : Offends sym before line fault) (after : List String) :
    ofLines sym (before ++ line :: after) = .error fault := by
  cases h with
  | header d opens taken => rw [d.ofLines_append, scan_taken opens taken, Except.map]
  | ending p ends other =>
    rw [p.ofLines_append, scan, ends]
    simp only [if_neg other, Except.map]

/-- No line offends before one that does. -/
theorem Offends.is_first {before : List String} {line : String} {fault : Fault} (h : Offends sym before line fault)
    {earlier : List String} {other : String} {fault' : Fault} (hbefore : earlier ++ [other] <+: before) :
    ¬Offends sym earlier other fault' := by
  intro hother
  obtain ⟨after, rfl⟩ := hbefore
  have herror := hother.ofLines_append after
  rw [← List.singleton_append, ← List.append_assoc] at herror
  -- the lines before an offending one are a division or an opening, and neither gives this fault
  generalize hlines : earlier ++ [other] ++ after = lines at h herror
  cases h with
  | header d opens taken =>
    rw [d.ofLines_lines] at herror
    cases herror
  | ending p ends other =>
    rw [p.ofLines_lines] at herror
    cases herror
    cases hother

theorem ofLines_eq_ok_iff {lines : List String} {o : Outline} :
    ofLines sym lines = .ok o ↔ ∃ d : Division sym, d.lines = lines ∧ d.outline = o := by
  constructor
  · intro h
    cases reading sym lines with
    | outside d =>
      rw [d.ofLines_lines] at h
      exact ⟨d, rfl, Except.ok.inj h⟩
    | inside p =>
      rw [p.ofLines_lines] at h
      cases h
    | faulty after hoffends =>
      rw [hoffends.ofLines_append] at h
      cases h
  · rintro ⟨d, rfl, rfl⟩
    exact d.ofLines_lines

theorem ofLines_eq_error_iff {lines : List String} {fault : Fault} :
    ofLines sym lines = .error fault ↔
      (∃ before line after, lines = before ++ line :: after ∧ Offends sym before line fault) ∨
      ∃ p : Opening sym, p.lines = lines ∧ fault = .unterminatedSection p.inner.name := by
  constructor
  · intro h
    cases reading sym lines with
    | outside d =>
      rw [d.ofLines_lines] at h
      cases h
    | inside p =>
      rw [p.ofLines_lines] at h
      exact .inr ⟨p, rfl, (Except.error.inj h).symm⟩
    | faulty after hoffends =>
      rw [hoffends.ofLines_append] at h
      cases h
      exact .inl ⟨_, _, after, rfl, hoffends⟩
  · rintro (⟨before, line, after, rfl, hoffends⟩ | ⟨p, rfl, rfl⟩)
    · exact hoffends.ofLines_append after
    · exact p.ofLines_lines

/-- **Which lines have an outline, and which one.**  Exactly those that can be divided into parts have one, and it
holds every line of the parts in order, the headers and last lines of sections apart.  Of other lines, the
fault is that of the first line that offends, or that a section has not ended. -/
theorem ofLines_iff_division (sym : Symbols) (lines : List String) :
    (∀ o, ofLines sym lines = .ok o ↔ ∃ d : Division sym, d.lines = lines ∧ d.outline = o) ∧
    ∀ fault, ofLines sym lines = .error fault ↔
      (∃ before line after, lines = before ++ line :: after ∧ Offends sym before line fault ∧
        ∀ earlier other, earlier ++ [other] <+: before → ∀ fault', ¬Offends sym earlier other fault') ∨
      ∃ p : Opening sym, p.lines = lines ∧ fault = .unterminatedSection p.inner.name := by
  refine ⟨fun o => ofLines_eq_ok_iff, fun fault => ?_⟩
  rw [ofLines_eq_error_iff]
  constructor
  · rintro (⟨before, line, after, hlines, hoffends⟩ | hopen)
    · refine .inl ⟨before, line, after, hlines, hoffends, ?_⟩
      intro earlier other hbefore fault'
      exact hoffends.is_first hbefore
    · exact .inr hopen
  · rintro (⟨before, line, after, hlines, hoffends, -⟩ | hopen)
    · exact .inl ⟨before, line, after, hlines, hoffends⟩
    · exact .inr hopen

/-- A section between lines outside, with lines in it that would be dropped or start a section elsewhere. -/
def walk : List String := ["Prose", ":if @x", "Lane:", "Prose", "Park:", ":end", "end Lane", ":end", "end Lane"]

theorem division_walk :
    (∃ d : Division .english, d.lines = walk ∧
      d.outline = ⟨[⟨"Lane", ["Prose", "Park:", ":end"]⟩], [":if @x", ":end"], ["Prose", "end Lane"]⟩) ∧
    ∃ before line after, walk ++ ["Lane:", ":stop"] = before ++ line :: after ∧
      Offends .english before line (.duplicateBlock "Lane") := by
  have hok := (ofLines_iff_division .english walk).1
  have herror := (ofLines_iff_division .english (walk ++ ["Lane:", ":stop"])).2 (.duplicateBlock "Lane")
  refine ⟨(hok _).1 rfl, ?_⟩
  rcases herror.1 rfl with ⟨before, line, after, hlines, hoffends, -⟩ | ⟨p, -, hfault⟩
  · exact ⟨before, line, after, hlines, hoffends⟩
  · cases hfault

end

end Outline

end SceneScript
