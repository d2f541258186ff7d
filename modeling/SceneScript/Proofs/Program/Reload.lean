import SceneScript.Proofs.Block.Flow
import SceneScript.Proofs.Line
import SceneScript.Proofs.Outline.Parts
import SceneScript.Proofs.Program.Saved
import SceneScript.Proofs.Render.Clause

/-!
# Loading compiled scripts

A program that was compiled is loaded as it was saved, unless one of its floats is not recovered from its text or one
of its expressions nests too deep.  Its positions are never in the way: a script becomes hardly more instructions than
it has characters.

    Program.load? program.save = some program ↔
      (∀ x ∈ program.floats, Recovers x) ∧ ∀ e ∈ program.exprs, e.levels ≤ 123
                                                                     (load?_save_of_compile)

Each of the two does happen.  A decimal may be too large for a float, or be read as another float, and operators may
be piled up without end.
-/

namespace SceneScript

open Json

instance (x : Float) : Decidable (ReadsBack x) := inferInstanceAs (Decidable (_ = _))

instance (x : Float) : Decidable (Recovers x) := inferInstanceAs (Decidable (_ ∧ _))

/-! ## What is read back -/

theorem recovers_of_decode_float {n : Nat} {x : Float} (h : Decode.float n (ofFloat x) = some x) : Recovers x := by
  unfold ofFloat at h
  split at h
  · rename_i hfinite
    exact ⟨hfinite, h⟩
  · cases h

theorem eq_of_decodeAll_map {α : Type} {f : Json → Option α} {enc : α → Json} {as : List α}
    (h : decodeAll f (as.map enc) = some as) : ∀ a ∈ as, f (enc a) = some a := by
  induction as with
  | nil => simp
  | cons a as ih =>
    rw [List.map_cons, decodeAll] at h
    split at h
    · rename_i b bs hb hbs
      cases h
      exact List.forall_mem_cons.2 ⟨hb, ih hbs⟩
    · cases h

theorem Value.recovers_of_decode {n : Nat} {v : Value} (h : Value.decode n v.toJson = some v) :
    ∀ x ∈ v.floats, Recovers x := by
  cases v with
  | float x =>
    obtain ⟨m, rfl, -⟩ := depth_tagged_le_iff.1 (faithful_value.sound h).2
    have hx : (Decode.float m (ofFloat x)).map Value.float = some (.float x) := h
    obtain ⟨y, hy, hyx⟩ := Option.map_eq_some_iff.1 hx
    cases hyx
    simpa [Value.floats] using recovers_of_decode_float hy
  | int | text | bool => simp [Value.floats]

namespace Expr

theorem decode_literal (k : Nat) (v : Value) :
    Expr.decode (k + 1) (literal v).toJson = (Value.decode k v.toJson).map literal := by
  simp [Expr.toJson, Expr.decode, choice?_tagged]

theorem decode_not (k : Nat) (e : Expr) : Expr.decode (k + 1) (not e).toJson = (Expr.decode k e.toJson).map not := by
  simp [Expr.toJson, Expr.decode, choice?_tagged]

theorem decode_neg (k : Nat) (e : Expr) : Expr.decode (k + 1) (neg e).toJson = (Expr.decode k e.toJson).map neg := by
  simp [Expr.toJson, Expr.decode, choice?_tagged]

theorem decode_assign (k : Nat) (name : String) (value : Expr) :
    Expr.decode (k + 2) (assign name value).toJson = (Expr.decode k value.toJson).map (assign name) := by
  have hname : Decode.text k (ofText name) = some name := faithful_text.complete trivial (Nat.zero_le k)
  cases hvalue : Expr.decode k value.toJson <;>
    simp [Expr.toJson, Expr.decode, choice?_tagged, Fields.required, Fields.get?, hname, hvalue]

theorem decode_binary (k : Nat) (op : BinaryOp) (left right : Expr) :
    Expr.decode (k + 2) (binary op left right).toJson =
      (Expr.decode k left.toJson).bind fun l => (Expr.decode k right.toJson).map (binary op l) := by
  have hop : BinaryOp.decode k (ofText op.name) = some op := faithful_binaryOp.complete trivial (Nat.zero_le k)
  cases hleft : Expr.decode k left.toJson <;> cases hright : Expr.decode k right.toJson <;>
    simp [Expr.toJson, Expr.decode, choice?_tagged, Fields.required, Fields.get?, hop, hleft, hright]

theorem recovers_of_decode {n : Nat} {e : Expr} (h : Expr.decode n e.toJson = some e) :
    ∀ x ∈ e.floats, Recovers x := by
  have hdepth := (Expr.sound_decode h).2
  induction e generalizing n with
  | literal v =>
    obtain ⟨k, rfl, -⟩ := depth_tagged_le_iff.1 hdepth
    rw [decode_literal] at h
    obtain ⟨v', hv, heq⟩ := Option.map_eq_some_iff.1 h
    cases heq
    exact Value.recovers_of_decode hv
  | var name => simp [Expr.floats]
  | assign name value ih =>
    obtain ⟨k, rfl, -⟩ := depth_tagged_record_le_iff.1 hdepth
    rw [decode_assign] at h
    obtain ⟨value', hvalue, heq⟩ := Option.map_eq_some_iff.1 h
    cases heq
    exact ih hvalue (Expr.sound_decode hvalue).2
  | binary op left right ihl ihr =>
    obtain ⟨k, rfl, -⟩ := depth_tagged_record_le_iff.1 hdepth
    rw [decode_binary] at h
    obtain ⟨left', hleft, hrest⟩ := Option.bind_eq_some_iff.1 h
    obtain ⟨right', hright, heq⟩ := Option.map_eq_some_iff.1 hrest
    cases heq
    exact List.forall_mem_append.2
      ⟨ihl hleft (Expr.sound_decode hleft).2, ihr hright (Expr.sound_decode hright).2⟩
  | not e ih =>
    obtain ⟨k, rfl, hk⟩ := depth_tagged_le_iff.1 hdepth
    rw [decode_not] at h
    obtain ⟨e', he, heq⟩ := Option.map_eq_some_iff.1 h
    cases heq
    exact ih he hk
  | neg e ih =>
    obtain ⟨k, rfl, hk⟩ := depth_tagged_le_iff.1 hdepth
    rw [decode_neg] at h
    obtain ⟨e', he, heq⟩ := Option.map_eq_some_iff.1 h
    cases heq
    exact ih he hk

end Expr

namespace Instruction

theorem decode_action (k : Nat) (name : String) (args : List Value) :
    Instruction.decode (k + 2) (action name args).toJson =
      (Decode.list Value.decode k (.array (args.map Value.toJson))).map (action name) := by
  have hname : Decode.text k (ofText name) = some name := faithful_text.complete trivial (Nat.zero_le k)
  rw [Instruction.toJson, decode_record (by decide)]
  cases hargs : Decode.list Value.decode k (.array (args.map Value.toJson)) <;>
    simp [decodeWith, Fields.required, Fields.get?, hname, hargs]

theorem decode_condition (k : Nat) (test : Expr) (ifTrue ifFalse : Nat) :
    Instruction.decode (k + 2) (condition test ifTrue ifFalse).toJson =
      (Expr.decode k test.toJson).bind fun test => (Decode.nat64 k (ofInt ifTrue)).bind fun ifTrue =>
        (Decode.nat64 k (ofInt ifFalse)).map (condition test ifTrue) := by
  rw [Instruction.toJson, decode_record (by decide)]
  cases htest : Expr.decode k test.toJson <;> cases htrue : Decode.nat64 k (ofInt ifTrue) <;>
    cases hfalse : Decode.nat64 k (ofInt ifFalse) <;>
      simp [decodeWith, Fields.required, Fields.get?, htest, htrue, hfalse]

theorem decode_yield (k : Nat) (value : Option Expr) :
    Instruction.decode (k + 2) (yield value).toJson =
      (Decode.optional Expr.decode k (orNull Expr.toJson value)).map yield := by
  rw [Instruction.toJson, decode_record (by decide)]
  simp [decodeWith, Fields.optional, Fields.get?]

theorem decode_compute (k : Nat) (e : Expr) :
    Instruction.decode (k + 2) (compute e).toJson = (Expr.decode k e.toJson).map compute := by
  rw [Instruction.toJson, decode_record (by decide)]
  simp [decodeWith, Fields.required, Fields.get?]

theorem recovers_of_decode {n : Nat} {i : Instruction} (h : Instruction.decode n i.toJson = some i) :
    ∀ x ∈ i.floats, Recovers x := by
  have hdepth := (Instruction.sound_decode h).2
  cases i with
  | action name args =>
    obtain ⟨k, rfl, hk⟩ := depth_tagged_record_le_iff.1 hdepth
    obtain ⟨m, rfl, -⟩ := depth_array_le_iff.1 (hk ("args", .array (args.map Value.toJson)) (by simp))
    rw [decode_action] at h
    obtain ⟨args', hargs, heq⟩ := Option.map_eq_some_iff.1 h
    cases heq
    exact List.forall_mem_flatMap.2 fun v hv => Value.recovers_of_decode (eq_of_decodeAll_map hargs v hv)
  | condition test ifTrue ifFalse =>
    obtain ⟨k, rfl, -⟩ := depth_tagged_record_le_iff.1 hdepth
    rw [decode_condition] at h
    obtain ⟨test', htest, hrest⟩ := Option.bind_eq_some_iff.1 h
    obtain ⟨_, -, hrest⟩ := Option.bind_eq_some_iff.1 hrest
    obtain ⟨_, -, heq⟩ := Option.map_eq_some_iff.1 hrest
    cases heq
    exact Expr.recovers_of_decode htest
  | yield value =>
    obtain ⟨k, rfl, -⟩ := depth_tagged_record_le_iff.1 hdepth
    rw [decode_yield] at h
    obtain ⟨value', hvalue, heq⟩ := Option.map_eq_some_iff.1 h
    cases heq
    cases value with
    | none => simp [floats]
    | some e =>
      unfold Decode.optional orNull at hvalue
      split at hvalue
      · cases hvalue
      · obtain ⟨e', he, heq⟩ := Option.map_eq_some_iff.1 hvalue
        cases heq
        simpa [floats] using Expr.recovers_of_decode he
  | compute e =>
    obtain ⟨k, rfl, -⟩ := depth_tagged_record_le_iff.1 hdepth
    rw [decode_compute] at h
    obtain ⟨e', he, heq⟩ := Option.map_eq_some_iff.1 h
    cases heq
    exact Expr.recovers_of_decode he
  | jump | blockEntry | blockEnd | bind | unbind | ret | stop => simp [floats]

end Instruction

/-- What was loaded as it was saved has no float that is lost in its text. -/
theorem Program.recovers_of_load? {p : Program} (h : Program.load? p.save = some p) : ∀ x ∈ p.floats, Recovers x := by
  have hfile : Decode.text 126 (ofText p.file) = some p.file := rfl
  have hinputs : Decode.list Decode.text 126 (.array (p.inputs.toList.map ofText)) = some p.inputs.toList :=
    faithful_text.list.complete (fun _ _ => trivial) (depth_array_le_iff.2 ⟨125, rfl, by simp⟩)
  have hdecode : Program.decode 127 p.toJson =
      (Decode.list Instruction.decode 126 (.array (p.code.map Instruction.toJson))).map
        fun code => ⟨code, p.file, p.inputs⟩ := by
    cases hcode : Decode.list Instruction.decode 126 (.array (p.code.map Instruction.toJson)) <;>
      simp [Program.decode, Program.toJson, Fields.required, Fields.withDefault, Fields.get?, hcode, hfile, hinputs,
        NameSet.ofList_toList]
  unfold Program.load? at h
  rw [Program.parse?_save, Option.bind_some, deepest, hdecode] at h
  obtain ⟨code, hcode, heq⟩ := Option.map_eq_some_iff.1 h
  obtain rfl : code = p.code := congrArg Program.code heq
  exact List.forall_mem_flatMap.2 fun i hi => Instruction.recovers_of_decode (eq_of_decodeAll_map hcode i hi)

/-! ## Levels -/

/-- How deep the text of an expression nests. -/
def Expr.levels : Expr → Nat
  | literal _ => 2
  | var _ => 1
  | assign _ value => value.levels + 2
  | binary _ left right => max left.levels right.levels + 2
  | not e => e.levels + 1
  | neg e => e.levels + 1

/-- The expressions that stand in an instruction. -/
def Instruction.exprs : Instruction → List Expr
  | condition test _ _ => [test]
  | yield value => value.toList
  | compute e => [e]
  | _ => []

def Program.exprs (p : Program) : List Expr := p.code.flatMap Instruction.exprs

theorem depth_tagged (name : String) (j : Json) : (tagged name j).depth = j.depth + 1 := by
  simp [tagged, record, depth, depthOfFields]

theorem Value.depth_toJson (v : Value) : v.toJson.depth = 1 := by
  cases v with
  | float x =>
    rw [Value.toJson, depth_tagged, ofFloat]
    split <;> rfl
  | int | text | bool => rfl

theorem Expr.depth_toJson (e : Expr) : e.toJson.depth = e.levels := by
  induction e with
  | literal v => rw [Expr.toJson, depth_tagged, Value.depth_toJson, levels]
  | var name => rfl
  | assign name value ih => simp [Expr.toJson, depth_tagged, record, depth, depthOfFields, levels, ih]
  | binary op left right ihl ihr =>
    simp [Expr.toJson, depth_tagged, record, depth, depthOfFields, levels, ihl, ihr]
  | not e ih => rw [Expr.toJson, depth_tagged, ih, levels]
  | neg e ih => rw [Expr.toJson, depth_tagged, ih, levels]

theorem depth_tagged_record_le {name : String} {fields : List (String × Json)} {m : Nat} :
    (tagged name (record fields)).depth ≤ m + 2 ↔ ∀ f ∈ fields, f.2.depth ≤ m := by
  simp [depth_tagged_record_le_iff]

/-- An instruction opens two levels around its expressions, and no more than four where it has none. -/
theorem Instruction.depth_le_iff {i : Instruction} {m : Nat} (hm : 2 ≤ m) :
    i.toJson.depth ≤ m + 2 ↔ ∀ e ∈ i.exprs, e.levels ≤ m := by
  cases i with
  | action name args =>
    have hargs : (Json.array (args.map Value.toJson)).depth ≤ m :=
      depth_array_le_iff.2 ⟨m - 1, by omega, List.forall_mem_map.2 fun v _ => by rw [Value.depth_toJson]; omega⟩
    simp [Instruction.toJson, depth_tagged_record_le, hargs, exprs]
  | condition test ifTrue ifFalse =>
    simp [Instruction.toJson, depth_tagged_record_le, exprs, Expr.depth_toJson]
  | yield value =>
    simp [Instruction.toJson, depth_tagged_record_le, exprs, depth_orNull_le_iff, Expr.depth_toJson]
  | compute e => simp [Instruction.toJson, depth_tagged_record_le, exprs, Expr.depth_toJson]
  | unbind name => simp [Instruction.toJson, depth_tagged_record_le, exprs, depth_orNull_le_iff]
  | jump | blockEntry | bind => simp [Instruction.toJson, depth_tagged_record_le, exprs]
  | blockEnd | ret | stop => simp [Instruction.toJson, exprs]

theorem Program.depth_le_iff {p : Program} {m : Nat} (hm : 2 ≤ m) :
    p.toJson.depth ≤ m + 4 ↔ ∀ e ∈ p.exprs, e.levels ≤ m := by
  have hinputs : (Json.array (p.inputs.toList.map ofText)).depth ≤ m + 3 :=
    depth_array_le_iff.2 ⟨m + 2, rfl, by simp⟩
  have hcode : (Json.array (p.code.map Instruction.toJson)).depth ≤ m + 3 ↔ ∀ e ∈ p.exprs, e.levels ≤ m := by
    have hlevel (k : Nat) : m + 3 = k + 1 ↔ m + 2 = k := by omega
    simp only [depth_array_le_iff, hlevel, exists_eq_left', List.forall_mem_map, exprs, List.forall_mem_flatMap,
      Instruction.depth_le_iff hm]
  simp [Program.toJson, depth_record_le_iff, hinputs, hcode]

/-! ## Positions -/

theorem Text.length_splitOn_le (p : Char → Bool) (cs : List Char) : (splitOn p cs).length ≤ cs.length + 1 := by
  induction cs with
  | nil => simp [splitOn]
  | cons c cs ih =>
    rw [splitOn]
    split
    · simpa using ih
    · unfold consHead
      split
      · simp
      · rename_i w ws hpieces
        rw [hpieces] at ih
        simp only [List.length_cons] at *
        omega

theorem Line.length_endPieces_le (pieces : List (List Char)) : (endPieces pieces).length ≤ pieces.length := by
  fun_induction endPieces pieces with
  | case1 => simp
  | case2 => simp
  | case3 => simp
  | case4 line rest _ ih => simpa using ih

theorem Line.length_normalize_le (comment : Char) (text : String) :
    (normalize comment text).length ≤ text.length + 1 := by
  have hfilter := List.length_filter_le (!·.isEmpty) ((ofText text.toList).map (clean comment))
  have hpieces := length_endPieces_le (Text.splitOn (· == '\n') text.toList)
  have hsplit := Text.length_splitOn_le (· == '\n') text.toList
  simp only [normalize, ofText, List.length_map, String.length_toList] at *
  omega

/-- How many lines sections take, with the first and the last of each. -/
def Section.totalLines : List Section → Nat
  | [] => 0
  | s :: ss => s.lines.length + 2 + totalLines ss

theorem Outline.Part.length_outline {sym : Symbols} (parts : List (Part sym)) :
    Section.totalLines (outline parts).sections + (outline parts).rest.length ≤
      (parts.flatMap Part.lines).length := by
  induction parts with
  | nil => simp [outline, Section.totalLines]
  | cons p parts ih =>
    cases p with
    | line text outside =>
      have hrest := List.length_filter_le (Line.startsWithAny sym.lineStarts) [text]
      rw [← List.singleton_append, outline_append]
      simp only [append, List.singleton_append, List.flatMap_cons, List.length_append, sections_line,
        List.nil_append]
      show _ + ((List.filter _ [text]).length + _) ≤ [text].length + _
      omega
    | enclosed e =>
      rw [← List.singleton_append, outline_append]
      simp only [append, List.singleton_append, List.flatMap_cons, List.length_append, outline_enclosed,
        Section.totalLines, List.nil_append, Part.lines, Enclosed.lines, List.length_cons, List.length_nil]
      omega

/-- Every line of a script is taken at most once. -/
theorem Outline.length_of_ofLines {sym : Symbols} {lines : List String} {o : Outline}
    (h : ofLines sym lines = .ok o) : Section.totalLines o.sections + o.rest.length ≤ lines.length := by
  obtain ⟨d, rfl, rfl⟩ := ofLines_eq_ok_iff.1 h
  exact Part.length_outline d.parts

namespace Block

theorem size_le (b : Block) : b.size ≤ b.statements.length + 2 := Nat.add_le_add_right (List.length_filter_le _ _) 2

theorem length_endingWith_le (b : Block) (keyword : Keyword) :
    (b.endingWith keyword).statements.length ≤ b.statements.length + 1 := by
  unfold endingWith
  split <;> simp

end Block

theorem length_of_collect {α β ε : Type} {f : α → Except ε β} {xs : List α} {ys : List β}
    (h : collect f xs = .ok ys) : ys.length = xs.length := by
  have := congrArg List.length ((collect_eq_ok_iff f xs ys).1 h)
  simpa using this.symm

theorem totalSize_of_collect {lang : Language} {sections : List Section} {blocks : List Block}
    (h : collect (Section.block lang) sections = .ok blocks) :
    Block.totalSize blocks ≤ Section.totalLines sections := by
  have hlengths : blocks.map (fun b => b.statements.length) = sections.map fun s => s.lines.length := by
    refine map_eq_of_collect (fun s b hb => ?_) h
    obtain ⟨statements, hstatements, rfl⟩ := map_eq_ok_iff.1 hb
    exact length_of_collect hstatements
  clear h
  induction sections generalizing blocks with
  | nil =>
    obtain rfl := List.map_eq_nil_iff.1 hlengths
    exact Nat.le_refl 0
  | cons s sections ih =>
    cases blocks with
    | nil => cases hlengths
    | cons b blocks =>
      obtain ⟨hb, hrest⟩ := List.cons.inj hlengths
      dsimp only at hb
      have hsize := b.size_le
      have htotal := ih hrest
      simp only [Block.totalSize, Section.totalLines]
      omega

theorem totalSize_of_scriptBlocks {lang : Language} {main : List String} {sections : List Section} {blocks : List Block}
    (h : scriptBlocks lang main sections = .ok blocks) :
    Block.totalSize blocks ≤ main.length + 3 + Section.totalLines sections := by
  unfold scriptBlocks at h
  cases hmain : Statement.parseAll lang main with
  | error fault => simp [hmain] at h
  | ok statements =>
    rw [hmain] at h
    obtain ⟨rest, hrest, rfl⟩ := map_eq_ok_iff.1 h
    have hlength : statements.length = main.length := length_of_collect hmain
    have hstop := Block.length_endingWith_le ⟨mainName, statements⟩ .stop
    have hsize := Block.size_le (Block.endingWith ⟨mainName, statements⟩ .stop)
    have htotal := totalSize_of_collect hrest
    simp only [Block.totalSize] at *
    omega

section

variable {lang : Language} {source : String} {program : Program}

/-- The code of a compiled script is that of its blocks. -/
theorem assembled_of_compile (h : (compile lang source).result = .ok program) :
    ∃ o blocks placed rs, Outline.ofLines lang.symbols (Line.normalize lang.symbols.comment source) = .ok o ∧
      scriptBlocks lang (Directive.separate lang.symbols o.rest).2 o.sections = .ok blocks ∧
      Assembled lang.symbols blocks placed program.code rs := by
  obtain ⟨o, ho, hcompile⟩ := compile_eq_ok_iff.1 h
  obtain ⟨blocks, before, hblocks, hbefore, happly⟩ := Outline.compile_eq_ok_iff.1 hcompile
  obtain ⟨placed, table, code, hplace, hemit, rfl⟩ := Program.ofBlocks_eq_ok_iff.1 hbefore
  obtain ⟨rs, ha⟩ := exists_assembled hplace hemit
  have hcode : program.code = code := by
    have := Directive.code_applyAll lang (Directive.separate lang.symbols o.rest).1 (Program.ofCode code)
    rw [happly] at this
    exact this
  rw [← hcode] at ha
  exact ⟨o, blocks, placed, rs, ho, hblocks, ha⟩

/-- A script becomes hardly more instructions than it has characters. -/
theorem length_code_le_of_compile (h : (compile lang source).result = .ok program) :
    program.code.length ≤ source.length + 4 := by
  obtain ⟨o, blocks, placed, rs, ho, hblocks, ha⟩ := assembled_of_compile h
  have hlines := Line.length_normalize_le lang.symbols.comment source
  have hlines := Outline.length_of_ofLines ho
  have hmain := List.length_filter_le (fun line => (Directive.parse? lang.symbols line).isNone) o.rest
  have htotal := totalSize_of_scriptBlocks hblocks
  have hcode := ha.code_length
  simp only [Directive.separate] at *
  omega

/-- **A compiled script is loaded as it was saved** exactly if its floats are recovered from their texts and its
expressions leave room for the levels around them.  The script has fewer than `2 ^ 63` characters, so that its
positions are words of 64 bits. -/
theorem load?_save_of_compile (h : (compile lang source).result = .ok program)
    (hsize : 2 * source.length < UInt64.size) :
    Program.load? program.save = some program ↔
      (∀ x ∈ program.floats, Recovers x) ∧ ∀ e ∈ program.exprs, e.levels ≤ 123 := by
  obtain ⟨o, blocks, placed, rs, -, -, ha⟩ := assembled_of_compile h
  have hlength := length_code_le_of_compile h
  have hwide : ∀ d ∈ program.destinations, d < UInt64.size := by
    refine List.forall_mem_flatMap.2 fun i hi d hd => ?_
    have := ha.contained.destination_lt hi hd
    unfold UInt64.size at *
    omega
  have hshallow : program.toJson.depth ≤ 127 ↔ ∀ e ∈ program.exprs, e.levels ≤ 123 :=
    Program.depth_le_iff (by decide)
  constructor
  · intro hload
    exact ⟨Program.recovers_of_load? hload, hshallow.1 (Program.isSavable_of_load? hload).shallow⟩
  · rintro ⟨hfloats, hlevels⟩
    exact Program.load?_save_of_isSavable (fun x hx _ => (hfloats x hx).2)
      ⟨fun x hx => (hfloats x hx).1, hwide, hshallow.2 hlevels⟩

end

/-! ## Scripts of one computation -/

/-- A visible text is a line of its own. -/
theorem Line.normalize_of_visible {cs : List Char} (h : Text.Visible cs) :
    Line.normalize '#' (String.ofList cs) = [String.ofList cs] := by
  have hclear {c : Char} (hc : c ∈ ['#', '\t', '\n']) : c ∉ cs := fun hmem => h.clear c hmem hc
  have hcarries : Line.Carries '#' cs cs := ⟨hclear (by simp), [], [], [], .nil, .nil, .inl rfl, by simp⟩
  have hcontent : Line.IsContent '#' cs := ⟨h.solid, hclear (by simp), hclear (by simp)⟩
  have hsource : (String.ofList cs).toList = ['\n'].intercalate [cs] := by simp
  rw [Line.normalize_of_carries (by decide) (by simp) (.cons hcarries .nil) (List.forall_mem_singleton.2 hcontent)
    hsource]
  simp [h.ne_nil]

/-- The script that computes what a text spells. -/
def calculation (t : List Char) : String := String.ofList (':' :: ("calcu".toList ++ ' ' :: t))

theorem normalize_calculation {t : List Char} (ht : Text.Visible t) :
    Line.normalize '#' (calculation t) = [calculation t] := by
  have hword : IsName "calcu" := Language.InUse.isName (.inl rfl) (by decide)
  have hvisible := (Text.visible_singleton (c := ':') (by decide) (by decide)).between
    (hword.visible.clear.append Text.Clear.space) ht
  rw [List.append_assoc] at hvisible
  exact Line.normalize_of_visible hvisible

theorem compile_calculation {t : List Char} (ht : Text.Visible t) {e : Expr}
    (he : Expr.parse .english (String.ofList t) = .ok e) :
    (compile .english (calculation t)).result = .ok (.ofCode [.blockEntry 0, .compute e, .stop, .blockEnd]) := by
  have hline : (calculation t).toList = ':' :: ("calcu".toList ++ ' ' :: t) := String.toList_ofList
  have htrim : Text.trim (' ' :: t) = t := by
    have := ht.solid.trim_append Text.AllBlank.space Text.AllBlank.nil
    rwa [List.append_nil] at this
  have hparse : Statement.parse .english (calculation t) = .ok ⟨.compute, [String.ofList t], calculation t⟩ := by
    refine Clause.parse_keyword (by decide) (Language.InUse.isName (.inl rfl) (by decide)) (by rfl) (by rfl) ?_ hline
    rw [htrim]
    simp [Statement.takeArguments, Keyword.arity, ht.ne_nil]
  have hlines : Outline.ofLines Language.english.symbols [calculation t] = .ok ⟨[], [calculation t], []⟩ := by
    have hstart : Line.startsWithAny Language.english.symbols.lineStarts (calculation t) = true := by
      rw [Line.startsWithAny, hline]
      rfl
    rw [Outline.ofLines, Outline.scan, if_pos hstart]
    rfl
  have hrest : Directive.separate Language.english.symbols [calculation t] = ([], [calculation t]) := by
    simp [Directive.separate, Directive.parse?, hline, Language.english, Symbols.english]
  have hblocks : scriptBlocks .english [calculation t] [] =
      .ok [⟨mainName, [⟨.compute, [String.ofList t], calculation t⟩, .implied .stop]⟩] := by
    simp [scriptBlocks, Statement.parseAll, collect, hparse, Block.endingWith, Except.map]
  have hkinds : collect (Statement.node Language.english.symbols)
      [⟨.compute, [String.ofList t], calculation t⟩, .implied .stop] = .ok [.plain (.compute e), .plain .stop] := by
    have hnode : Statement.node Language.english.symbols ⟨.compute, [String.ofList t], calculation t⟩ =
        .ok (.plain (.compute e)) := congrArg (Except.map _) he
    simp only [collect, hnode]
    rfl
  have hcode : Program.ofBlocks Language.english.symbols
      [⟨mainName, [⟨.compute, [String.ofList t], calculation t⟩, .implied .stop]⟩] =
        .ok (.ofCode [.blockEntry 0, .compute e, .stop, .blockEnd]) := by
    simp only [Program.ofBlocks, Block.place, Block.placeFrom, Block.nodes, hkinds]
    rfl
  unfold compile compileLines
  rw [show Language.english.symbols.comment = '#' from rfl, normalize_calculation ht, hlines]
  simp only [Outline.compile, hrest, hblocks, hcode, Directive.applyAll]

theorem Text.visible_of_forall {cs : List Char} (hne : cs ≠ [])
    (h : ∀ c ∈ cs, c ∉ ['#', '\t', '\n'] ∧ isBlank c = false) : Visible cs where
  ne_nil := hne
  solid := solid_of_forall fun c hc => (h c hc).2
  clear c hc := (h c hc).1

/-- An expression of a program that is loaded as it was saved. -/
def Expr.IsKept (e : Expr) : Prop := (∀ x ∈ e.floats, Recovers x) ∧ e.levels ≤ 123

instance (e : Expr) : Decidable e.IsKept := inferInstanceAs (Decidable (_ ∧ _))

theorem exists_of_any {ε α : Type} {x : Except ε α} {p : α → Bool} (h : x.toOption.any p = true) :
    ∃ a, x = .ok a ∧ p a = true := by
  cases x with
  | error e => cases h
  | ok a => exact ⟨a, rfl, h⟩

/-- What a text spells decides whether its computation is kept. -/
theorem exists_calculation {t : List Char} (ht : Text.Visible t) {p : Expr → Bool}
    (h : (Expr.readAll .english t).toOption.any p = true) :
    ∃ e program, (compile .english (calculation t)).result = .ok program ∧ p e = true ∧
      (((∀ x ∈ program.floats, Recovers x) ∧ ∀ e ∈ program.exprs, e.levels ≤ 123) ↔ e.IsKept) := by
  obtain ⟨e, hread, he⟩ := exists_of_any h
  have hparse : Expr.parse .english (String.ofList t) = .ok e := by
    simp only [Expr.parse, String.toList_ofList, ht.solid.trim_eq, hread]
  refine ⟨e, _, compile_calculation ht hparse, he, ?_⟩
  simp [Program.ofCode, Program.floats, Program.exprs, Instruction.floats, Instruction.exprs, Expr.IsKept]

/-- A comparison with a large float. -/
def limit : List Char := "!(@x<20000000000000000.0)".toList

theorem load?_save_limit :
    2 * (calculation limit).length < UInt64.size ∧
      ∃ program, (compile .english (calculation limit)).result = .ok program ∧
        Program.load? program.save = some program := by
  have hsize : 2 * (calculation limit).length < UInt64.size := by decide +kernel
  have hvisible : Text.Visible limit := Text.visible_of_forall (by decide) (by decide +kernel)
  obtain ⟨e, program, hcompile, he, hkept⟩ :=
    exists_calculation (p := fun e => decide e.IsKept) hvisible (by decide +kernel)
  exact ⟨hsize, program, hcompile, (load?_save_of_compile hcompile hsize).2 (hkept.2 (of_decide_eq_true he))⟩

/-- The program of the script is not loaded as it was saved. -/
def IsLost (source : String) : Prop :=
  ∃ program, (compile .english source).result = .ok program ∧ Program.load? program.save ≠ some program

theorem isLost_calculation {t : List Char} (ht : Text.Visible t)
    (h : (Expr.readAll .english t).toOption.any (fun e => !decide e.IsKept) = true) : IsLost (calculation t) := by
  obtain ⟨e, program, hcompile, he, hkept⟩ := exists_calculation ht h
  refine ⟨program, hcompile, fun hload => ?_⟩
  have hlevels := (Program.depth_le_iff (m := 123) (by decide)).1 (Program.isSavable_of_load? hload).shallow
  have := hkept.1 ⟨Program.recovers_of_load? hload, hlevels⟩
  simp [this] at he

/-- A decimal that is too large for a float. -/
def flood : List Char := '1' :: (List.replicate 309 '0' ++ ['.', '0'])

/-- More signs than a saved program may nest. -/
def tower : List Char := List.replicate 123 '-' ++ ['@', 'x']

/-- A decimal whose float has a text that is read as the next one. -/
def drift : List Char := "73764724216481685504.0".toList

theorem isLost_scripts : IsLost (calculation flood) ∧ IsLost (calculation tower) ∧ IsLost (calculation drift) := by
  refine ⟨isLost_calculation (Text.visible_of_forall (by decide) ?_) (by decide +kernel),
    isLost_calculation (Text.visible_of_forall (by decide) ?_) (by decide +kernel),
    isLost_calculation (Text.visible_of_forall (by decide) ?_) (by decide +kernel)⟩
  all_goals decide +kernel

end SceneScript
