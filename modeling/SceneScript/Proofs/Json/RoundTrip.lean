import SceneScript.Proofs.Json.Scalar

/-!
# Reading written values

A value whose texts are texts and whose numbers are proper is read as it was written, on one line or on many.  The
calls that reading takes are counted by the characters: an item or a field takes two calls, and has a character of
its own and one that divides it from the next.

    j.IsProper → parse? j.pretty = some j                            (parse?_pretty)
-/

namespace SceneScript.Json

open Decimal

/-- Every text in the value is one, and every number is proper. -/
inductive IsProper : Json → Prop
  | null : IsProper .null
  | bool (b : Bool) : IsProper (.bool b)
  | number {n : Numeral} (h : n.IsProper) : IsProper (.number n)
  | text (s : String) : IsProper (ofText s)
  | array {items : List Json} (h : ∀ x ∈ items, IsProper x) : IsProper (.array items)
  | object {fields : List (Option String × Json)} (hkeys : ∀ f ∈ fields, f.1.isSome = true)
      (h : ∀ f ∈ fields, IsProper f.2) : IsProper (.object fields)

/-! ## Blanks -/

theorem skipSpace_cons {c : Char} (h : isSpace c = false) (cs : List Char) : skipSpace (c :: cs) = c :: cs := by
  simp [skipSpace, h]

theorem skipSpace_lineBreak (level : Option Nat) (cs : List Char) : skipSpace (lineBreak level cs) = skipSpace cs := by
  cases level with
  | none => rfl
  | some level =>
    have hblank : ∀ c ∈ List.replicate (2 * level) ' ', isSpace c = true := by
      intro c hc
      rw [List.eq_of_mem_replicate hc]
      rfl
    exact List.dropWhile_append_of_pos hblank

theorem skipSpace_colon (level : Option Nat) (cs : List Char) :
    ∃ tail, colon level cs = ':' :: tail ∧ skipSpace tail = skipSpace cs := by
  cases level <;> exact ⟨_, rfl, rfl⟩

theorem readValue_congr {cs ds : List Char} (h : skipSpace cs = skipSpace ds) (fuel : Nat) :
    readValue fuel cs = readValue fuel ds := by
  cases fuel with
  | zero => rw [readValue, readValue]
  | succ fuel => rw [readValue, readValue, h]

theorem readItems_congr {cs ds : List Char} (h : skipSpace cs = skipSpace ds) (fuel : Nat) :
    readItems fuel cs = readItems fuel ds := by
  cases fuel with
  | zero => rw [readItems, readItems]
  | succ fuel => rw [readItems, readItems, readValue_congr h]

theorem readFields_congr {cs ds : List Char} (h : skipSpace cs = skipSpace ds) (fuel : Nat) :
    readFields fuel cs = readFields fuel ds := by
  cases fuel with
  | zero => rw [readFields, readFields]
  | succ fuel => rw [readFields, readFields, h]

/-! ## The first character -/

theorem exists_head_text {n : Numeral} (hn : n.IsProper) :
    ∃ c tail, n.text true = c :: tail ∧ (c = '-' ∨ c.isDigit = true) := by
  obtain ⟨d, ds, hwhole, hd⟩ := exists_head_whole hn
  rw [← List.append_nil (n.text true), text_eq, hwhole]
  cases n.negative with
  | true => exact ⟨_, _, rfl, .inl rfl⟩
  | false => exact ⟨_, _, rfl, .inr hd⟩

theorem ne_of_isDigit {c d : Char} (hc : c.isDigit = true) (hd : d.isDigit = false) : c ≠ d := by
  rintro rfl
  rw [hc] at hd
  cases hd

/-- A value starts with a character that no blank and no closing bracket is. -/
theorem exists_head_write {j : Json} (hj : j.IsProper) (level : Option Nat) (rest : List Char) :
    ∃ c tail, write level j rest = c :: tail ∧ isSpace c = false ∧ c ≠ ']' := by
  cases hj with
  | null => exact ⟨'n', _, rfl, by decide⟩
  | bool b => cases b <;> exact ⟨_, _, rfl, by decide⟩
  | text s => exact ⟨'"', _, rfl, by decide⟩
  | number hn =>
    obtain ⟨c, tail, htext, hc⟩ := exists_head_text hn
    refine ⟨c, tail ++ rest, congrArg (· ++ rest) htext, ?_⟩
    rcases hc with rfl | hc
    · decide
    · simp [isSpace, ne_of_isDigit hc]
  | @array items h => cases items <;> exact ⟨'[', _, by rw [write], by decide⟩
  | @object fields hkeys h => cases fields <;> exact ⟨'\x7b', _, by rw [write], by decide⟩

/-! ## Values -/

theorem length_le_lineBreak (level : Option Nat) (rest : List Char) : rest.length ≤ (lineBreak level rest).length := by
  cases level with
  | none => exact Nat.le_refl _
  | some level =>
    simp only [lineBreak, List.length_cons, List.length_append]
    omega

theorem ends_lineBreak (level : Option Nat) {c : Char} (hc : c.isDigit = false ∧ c ∉ ['.', 'e', 'E'])
    (rest : List Char) : Ends (lineBreak level (c :: rest)) := by
  cases level with
  | none => exact ends_cons rest hc
  | some level => exact ends_cons _ (by decide)

/-- The value takes a character, and is read with two calls for each one. -/
structure IsRead (j : Json) : Prop where
  length_lt : ∀ level rest, rest.length < (write level j rest).length
  readValue_write : ∀ level rest fuel, Ends rest → 2 * (write level j rest).length ≤ fuel + 2 * rest.length →
    readValue fuel (write level j rest) = some (j, rest)

theorem isRead_of_head {j : Json} (h : ∀ level rest, ∃ c tail, write level j rest = c :: tail ∧
    rest.length ≤ tail.length ∧ (Ends rest → ∀ fuel, 2 * tail.length + 1 ≤ fuel + 2 * rest.length →
      readValue (fuel + 1) (c :: tail) = some (j, rest))) : IsRead j where
  length_lt level rest := by
    obtain ⟨c, tail, hwrite, hlen, -⟩ := h level rest
    rw [hwrite, List.length_cons]
    omega
  readValue_write level rest fuel hrest hfuel := by
    obtain ⟨c, tail, hwrite, hlen, hread⟩ := h level rest
    rw [hwrite, List.length_cons] at hfuel
    rw [hwrite]
    cases fuel with
    | zero => omega
    | succ fuel => exact hread hrest fuel (by omega)

theorem isRead_items (outer level : Option Nat) {x : Json} {items : List Json} (h : ∀ y ∈ x :: items, IsRead y)
    (rest : List Char) :
    let cs := write level x (writeItems level items (lineBreak outer (']' :: rest)))
    rest.length + 1 < cs.length ∧
      ∀ fuel, 2 * cs.length + 1 ≤ fuel + 2 * rest.length → readItems fuel cs = some (x :: items, rest) := by
  have hx := h x (by simp)
  induction items generalizing x with
  | nil =>
    have hclose := length_le_lineBreak outer (']' :: rest)
    rw [List.length_cons] at hclose
    rw [writeItems]
    have hlt := hx.length_lt level (lineBreak outer (']' :: rest))
    refine ⟨by omega, fun fuel hfuel => ?_⟩
    cases fuel with
    | zero => omega
    | succ fuel =>
      rw [readItems, hx.readValue_write level _ fuel (ends_lineBreak outer (by decide) rest) (by omega)]
      simp only [skipSpace_lineBreak, skipSpace_cons (by decide : isSpace ']' = false)]
  | cons y items ih =>
    obtain ⟨hlen, hread⟩ := ih (fun z hz => h z (by simp [List.mem_cons.1 hz])) (h y (by simp))
    rw [writeItems]
    generalize write level y (writeItems level items (lineBreak outer (']' :: rest))) = tail at hlen hread ⊢
    have hline := length_le_lineBreak level tail
    have hlt := hx.length_lt level (',' :: lineBreak level tail)
    rw [List.length_cons] at hlt
    refine ⟨by omega, fun fuel hfuel => ?_⟩
    cases fuel with
    | zero => omega
    | succ fuel =>
      have hvalue := hx.readValue_write level (',' :: lineBreak level tail) fuel (ends_cons _ (by decide))
        (by rw [List.length_cons]; omega)
      rw [readItems, hvalue]
      simp only [skipSpace_cons (by decide : isSpace ',' = false)]
      rw [readItems_congr (skipSpace_lineBreak level tail), hread fuel (by omega)]
      rfl

section
variable {s : String} {v : Json} {fuel : Nat} {cs r rest : List Char} (mark : Option Nat)

theorem readFields_last (hvalue : readValue fuel cs = some (v, r)) (hr : skipSpace r = '\x7d' :: rest) :
    readFields (fuel + 1) (writeText (some s) (colon mark cs)) = some ([(some s, v)], rest) := by
  obtain ⟨tail, hcolon, htail⟩ := skipSpace_colon mark cs
  rw [← readValue_congr htail fuel] at hvalue
  rw [readFields, hcolon, writeText, skipSpace_cons (by decide)]
  simp only [Option.getD_some, readText_escape, skipSpace_cons (by decide : isSpace ':' = false), hvalue, hr]

theorem readFields_next (hvalue : readValue fuel cs = some (v, ',' :: rest)) :
    readFields (fuel + 1) (writeText (some s) (colon mark cs)) =
      (readFields fuel rest).map fun p => ((some s, v) :: p.1, p.2) := by
  obtain ⟨tail, hcolon, htail⟩ := skipSpace_colon mark cs
  rw [← readValue_congr htail fuel] at hvalue
  rw [readFields, hcolon, writeText, skipSpace_cons (by decide)]
  simp only [Option.getD_some, readText_escape, skipSpace_cons (by decide : isSpace ':' = false), hvalue,
    skipSpace_cons (by decide : isSpace ',' = false)]

theorem length_lt_pair (k : Option String) (cs : List Char) : cs.length < (writeText k (colon mark cs)).length := by
  cases mark <;> simp only [writeText, colon, List.length_cons, List.length_append] <;> omega

end

theorem isRead_fields (outer mark level : Option Nat) (s : String) {v : Json} {fields : List (Option String × Json)}
    (hv : IsRead v) (hkeys : ∀ f ∈ fields, f.1.isSome = true) (h : ∀ f ∈ fields, IsRead f.2) (rest : List Char) :
    let cs := writeText (some s) (colon mark
      (write level v (writeFields level fields (lineBreak outer ('\x7d' :: rest)))))
    rest.length + 1 < cs.length ∧
      ∀ fuel, 2 * cs.length + 1 ≤ fuel + 2 * rest.length → readFields fuel cs = some ((some s, v) :: fields, rest) := by
  induction fields generalizing s v mark with
  | nil =>
    have hclose := length_le_lineBreak outer ('\x7d' :: rest)
    rw [List.length_cons] at hclose
    rw [writeFields]
    have hlt := hv.length_lt level (lineBreak outer ('\x7d' :: rest))
    have hpair := length_lt_pair mark (some s) (write level v (lineBreak outer ('\x7d' :: rest)))
    refine ⟨by omega, fun fuel hfuel => ?_⟩
    cases fuel with
    | zero => omega
    | succ fuel =>
      have hvalue := hv.readValue_write level (lineBreak outer ('\x7d' :: rest)) fuel
        (ends_lineBreak outer (by decide) rest) (by omega)
      exact readFields_last mark hvalue (by rw [skipSpace_lineBreak, skipSpace_cons (by decide)])
  | cons f fields ih =>
    obtain ⟨k, w⟩ := f
    obtain ⟨t, rfl⟩ : ∃ t, k = some t := Option.isSome_iff_exists.1 (hkeys (k, w) (by simp))
    obtain ⟨hlen, hread⟩ := ih level t (h (some t, w) (by simp)) (fun g hg => hkeys g (by simp [hg]))
      (fun g hg => h g (by simp [hg]))
    rw [writeFields]
    generalize writeText (some t) (colon level (write level w (writeFields level fields
      (lineBreak outer ('\x7d' :: rest))))) = tail at hlen hread ⊢
    have hline := length_le_lineBreak level tail
    have hlt := hv.length_lt level (',' :: lineBreak level tail)
    have hpair := length_lt_pair mark (some s) (write level v (',' :: lineBreak level tail))
    rw [List.length_cons] at hlt
    refine ⟨by omega, fun fuel hfuel => ?_⟩
    cases fuel with
    | zero => omega
    | succ fuel =>
      have hvalue := hv.readValue_write level (',' :: lineBreak level tail) fuel (ends_cons _ (by decide))
        (by rw [List.length_cons]; omega)
      rw [readFields_next mark hvalue, readFields_congr (skipSpace_lineBreak level tail), hread fuel (by omega)]
      rfl

/-! ## Round trip -/

theorem readScalar_text {n : Numeral} (hn : n.IsProper) {rest : List Char} (hrest : Ends rest) :
    readScalar (n.text true ++ rest) = some (.number n, rest) := by
  obtain ⟨c, tail, htext, hc⟩ := exists_head_text hn
  -- no word starts with a digit or a sign
  have hnone {w : String} {d : Char} {ds : List Char} (hw : w.toList = d :: ds) (hd : d ≠ '-' ∧ d.isDigit = false) :
      Text.dropPrefix? w.toList (n.text true ++ rest) = none := by
    rw [Option.eq_none_iff_forall_ne_some]
    intro after hafter
    rw [Text.dropPrefix?_eq_some_iff, htext, hw, List.cons_append, List.cons_append, List.cons.injEq] at hafter
    rcases hc with rfl | hc
    · exact hd.1 hafter.1.symm
    · exact ne_of_isDigit hc hd.2 hafter.1
  unfold readScalar
  rw [hnone (w := "null") rfl (by decide), hnone (w := "true") rfl (by decide), hnone (w := "false") rfl (by decide),
    readNumeral_text hn hrest]
  rfl

/-- A value that starts like neither a text, an array nor an object is a scalar. -/
theorem readValue_scalar {c : Char} {tail : List Char} (hspace : isSpace c = false)
    (hc : c ∉ ['"', '[', '\x7b']) (fuel : Nat) : readValue (fuel + 1) (c :: tail) = readScalar (c :: tail) := by
  rw [readValue, skipSpace_cons hspace]
  split
  · rename_i heq
    exact absurd (List.cons.inj heq).1 (by rintro rfl; simp at hc)
  · rename_i heq
    exact absurd (List.cons.inj heq).1 (by rintro rfl; simp at hc)
  · rename_i heq
    exact absurd (List.cons.inj heq).1 (by rintro rfl; simp at hc)
  · rfl

theorem isRead_number {n : Numeral} (hn : n.IsProper) : IsRead (.number n) := by
  refine isRead_of_head fun level rest => ?_
  obtain ⟨c, tail, htext, hc⟩ := exists_head_text hn
  have hwrite : n.text true ++ rest = c :: (tail ++ rest) := congrArg (· ++ rest) htext
  refine ⟨c, tail ++ rest, hwrite, (List.suffix_append _ _).length_le, fun hrest fuel _ => ?_⟩
  rw [readValue_scalar _ _ fuel, ← hwrite, readScalar_text hn hrest]
  all_goals
    rcases hc with rfl | hc
    · decide
    · simp [isSpace, ne_of_isDigit hc]

theorem isRead_text (s : String) : IsRead (ofText s) := by
  refine isRead_of_head fun level rest => ⟨'"', s.toList.flatMap escape ++ '"' :: rest, rfl, ?_, fun _ fuel _ => ?_⟩
  · simp only [List.length_append, List.length_cons]
    omega
  · rw [readValue, skipSpace_cons (by decide)]
    simp only [readText_escape]
    rfl

theorem isRead_array {items : List Json} (h : ∀ x ∈ items, x.IsProper) (ih : ∀ x ∈ items, IsRead x) :
    IsRead (.array items) := by
  cases items with
  | nil => exact isRead_of_head fun level rest => ⟨'[', ']' :: rest, rfl, Nat.le_succ _, fun _ _ _ => rfl⟩
  | cons x items =>
    refine isRead_of_head fun level rest => ⟨'[', _, by rw [write], ?_⟩
    obtain ⟨hlen, hread⟩ := isRead_items level (deeper level) ih rest
    obtain ⟨c, tail, hhead, hspace, hc⟩ := exists_head_write (h x (by simp)) (deeper level)
      (writeItems (deeper level) items (lineBreak level (']' :: rest)))
    rw [hhead] at hlen hread ⊢
    have hline := length_le_lineBreak (deeper level) (c :: tail)
    refine ⟨by omega, fun _ fuel hfuel => ?_⟩
    rw [readValue, skipSpace_cons (by decide)]
    simp only [skipSpace_lineBreak, skipSpace_cons hspace]
    split
    · rename_i heq
      exact absurd (List.cons.inj heq).1 hc
    · rw [hread fuel (by omega)]
      rfl

theorem isRead_object {fields : List (Option String × Json)} (hkeys : ∀ f ∈ fields, f.1.isSome = true)
    (ih : ∀ f ∈ fields, IsRead f.2) : IsRead (.object fields) := by
  cases fields with
  | nil => exact isRead_of_head fun level rest => ⟨'\x7b', '\x7d' :: rest, rfl, Nat.le_succ _, fun _ _ _ => rfl⟩
  | cons f fields =>
    obtain ⟨k, v⟩ := f
    obtain ⟨s, rfl⟩ : ∃ s, k = some s := Option.isSome_iff_exists.1 (hkeys (k, v) (by simp))
    refine isRead_of_head fun level rest => ⟨'\x7b', _, by rw [write], ?_⟩
    obtain ⟨hlen, hread⟩ := isRead_fields level level (deeper level) s (ih (some s, v) (by simp))
      (fun f hf => hkeys f (List.mem_cons_of_mem _ hf)) (fun f hf => ih f (List.mem_cons_of_mem _ hf)) rest
    generalize hcs : writeText (some s) (colon level (write (deeper level) v (writeFields (deeper level) fields
      (lineBreak level ('\x7d' :: rest))))) = cs at hlen hread ⊢
    have hline := length_le_lineBreak (deeper level) cs
    refine ⟨by omega, fun _ fuel hfuel => ?_⟩
    obtain ⟨tail, rfl⟩ : ∃ tail, cs = '"' :: tail := ⟨_, hcs.symm⟩
    rw [readValue, skipSpace_cons (by decide)]
    simp only [skipSpace_lineBreak, skipSpace_cons (by decide : isSpace '"' = false)]
    split
    · rename_i heq
      exact absurd (List.cons.inj heq).1 (by decide)
    · rw [hread fuel (by omega)]
      rfl

theorem isRead_of_isProper {j : Json} (hj : j.IsProper) : IsRead j := by
  induction hj with
  | null =>
    exact isRead_of_head fun level rest =>
      ⟨'n', "ull".toList ++ rest, rfl, (List.suffix_append _ _).length_le, fun _ _ _ => rfl⟩
  | bool b =>
    cases b with
    | true =>
      exact isRead_of_head fun level rest =>
        ⟨'t', "rue".toList ++ rest, rfl, (List.suffix_append _ _).length_le, fun _ _ _ => rfl⟩
    | false =>
      exact isRead_of_head fun level rest =>
        ⟨'f', "alse".toList ++ rest, rfl, (List.suffix_append _ _).length_le, fun _ _ _ => rfl⟩
  | number hn => exact isRead_number hn
  | text s => exact isRead_text s
  | array h ih => exact isRead_array h ih
  | object hkeys h ih => exact isRead_object hkeys ih

/-- A proper value is read as it is written with one item a line. -/
theorem parse?_pretty {j : Json} (hj : j.IsProper) : parse? j.pretty = some j := by
  have hread := (isRead_of_isProper hj).readValue_write (some 0) [] (2 * (write (some 0) j []).length + 2) ends_nil
    (by omega)
  unfold parse? pretty
  rw [String.toList_ofList, hread]
  rfl

end SceneScript.Json
