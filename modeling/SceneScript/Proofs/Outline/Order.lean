import SceneScript.Compile
import SceneScript.Proofs.Outline.Parts

/-!
# Where a section stands

A section and a line outside the sections go to different lists of the outline, so it does not matter which of
the two is written first, nor what stands before and after them.  If one of the lines offends, it is the
same one with the same fault.

    ofLines sym (before ++ (e.lines ++ line :: after)) =
      ofLines sym (before ++ line :: (e.lines ++ after))             (ofLines_swap)
    compile lang source = compile lang moved                         (compile_moved_section)
-/

namespace SceneScript

namespace Outline

variable {sym : Symbols}

theorem append_enclosed_line (e : Enclosed sym) {line : String} (outside : IsOutside sym line) :
    (Part.outline [.enclosed e]).append (Part.outline [.line line outside]) =
      (Part.outline [.line line outside]).append (Part.outline [.enclosed e]) := by
  simp [append]

/-- Outside the sections, the scan gives the same for a section and a line in either order. -/
theorem scan_swap (e : Enclosed sym) {line : String} (outside : IsOutside sym line) (used after : List String) :
    scan sym none used (e.lines ++ line :: after) = scan sym none used (line :: (e.lines ++ after)) := by
  have hline : ∀ taken rest, scan sym none taken (line :: rest) =
      (scan sym none taken rest).map (Part.outline [.line line outside]).append := by
    intro taken rest
    exact scan_part (.line line outside) (by simp) rest
  by_cases htaken : e.inner.name = mainName ∨ e.inner.name ∈ used
  · -- the header offends, whether the line has come or not
    have hheader : ∀ rest, scan sym none used (e.lines ++ rest) = .error (.duplicateBlock e.inner.name) := by
      intro rest
      exact scan_taken e.opens htaken _
    rw [hline, hheader, hheader, Except.map]
  · have henclosed : ∀ rest, scan sym none used (e.lines ++ rest) =
        (scan sym none (e.inner.name :: used) rest).map (Part.outline [.enclosed e]).append := by
      intro rest
      exact scan_part (.enclosed e) (by simpa using htaken) rest
    rw [hline, henclosed, henclosed, hline, map_append_append, map_append_append, append_enclosed_line]

/-- Unless the lines before leave a section open, the next section and a line after it can be written in either
order. -/
theorem ofLines_swap {before : List String} (hbefore : ¬∃ p : Opening sym, p.lines = before) (e : Enclosed sym)
    {line : String} (outside : IsOutside sym line) (after : List String) :
    ofLines sym (before ++ (e.lines ++ line :: after)) = ofLines sym (before ++ line :: (e.lines ++ after)) := by
  cases reading sym before with
  | outside d => rw [d.ofLines_append, d.ofLines_append, scan_swap e outside]
  | inside p => exact absurd ⟨p, rfl⟩ hbefore
  | faulty rest h =>
    rw [List.append_assoc, List.append_assoc, List.cons_append, List.cons_append, h.ofLines_append,
      h.ofLines_append]

end Outline

open Outline in
/-- **Where a section is written among the lines outside the sections does not matter.**  Two scripts whose lines
differ in the order of a section and a line outside it compile to the same program or the same fault, with
the same warnings. -/
theorem compile_moved_section (lang : Language) (source moved : String) (before after : List String)
    (hbefore : ¬∃ p : Opening lang.symbols, p.lines = before) (e : Enclosed lang.symbols) (line : String)
    (outside : IsOutside lang.symbols line)
    (hsource : Line.normalize lang.symbols.comment source = before ++ e.lines ++ [line] ++ after)
    (hmoved : Line.normalize lang.symbols.comment moved = before ++ [line] ++ e.lines ++ after) :
    compile lang source = compile lang moved := by
  have hswap := ofLines_swap hbefore e outside after
  unfold compile compileLines
  rw [hsource, hmoved]
  simp only [List.append_assoc, List.cons_append, List.nil_append, hswap]

/-- A section stands in the first part of a branch of the main block. -/
def aside : String := "Later\n:if @late\nLane:\n:return\nend Lane\n:else\n:stop\n:end"

/-- The section has moved to the second part. -/
def asideMoved : String := "Later\n:if @late\n:else\nLane:\n:return\nend Lane\n:stop\n:end"

/-- The section of both scripts. -/
def asideLane : Outline.Enclosed .english where
  header := "Lane:"
  inner := ⟨"Lane", [":return"]⟩
  ending := "end Lane"
  opens := by unfold Section.IsHeader; decide
  stays := by decide
  closes := by decide

theorem compile_aside :
    Line.normalize '#' aside = ["Later", ":if @late"] ++ asideLane.lines ++ [":else"] ++ [":stop", ":end"] ∧
    Line.normalize '#' asideMoved = ["Later", ":if @late"] ++ [":else"] ++ asideLane.lines ++ [":stop", ":end"] ∧
    compile .english aside = compile .english asideMoved := by
  have hsource : Line.normalize '#' aside =
      ["Later", ":if @late"] ++ asideLane.lines ++ [":else"] ++ [":stop", ":end"] := by decide +kernel
  have hmoved : Line.normalize '#' asideMoved =
      ["Later", ":if @late"] ++ [":else"] ++ asideLane.lines ++ [":stop", ":end"] := by decide +kernel
  have hbefore : ¬∃ p : Outline.Opening .english, p.lines = ["Later", ":if @late"] := by
    rintro ⟨p, hp⟩
    have hopen := p.ofLines_lines
    rw [hp] at hopen
    cases hopen
  refine ⟨hsource, hmoved, ?_⟩
  exact compile_moved_section .english aside asideMoved _ _ hbefore asideLane ":else" (.inl (by decide)) hsource hmoved

end SceneScript
