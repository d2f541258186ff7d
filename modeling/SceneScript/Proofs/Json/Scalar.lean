import SceneScript.Json.Reader
import SceneScript.Json.Writer
import SceneScript.Proofs.Decimal.Numeral
import SceneScript.Proofs.Text

/-!
# Reading written numbers and texts

What is written for a number or a text is read back, with the characters after it left.

    readNumeral (n.text true ++ rest) = some (n, rest)               (readNumeral_text)
    readText (s.toList.flatMap escape ++ '"' :: rest) = some (some s, rest)    (readText_escape)
-/

namespace SceneScript.Json

open Decimal

/-! ## Numbers -/

/-- The characters do not go on with a number. -/
def Ends (rest : List Char) : Prop := ∀ c ∈ rest.head?, c.isDigit = false ∧ c ∉ ['.', 'e', 'E']

theorem ends_nil : Ends [] := by simp [Ends]

theorem ends_cons {c : Char} (rest : List Char) (h : c.isDigit = false ∧ c ∉ ['.', 'e', 'E']) : Ends (c :: rest) := by
  simpa [Ends] using h

theorem Ends.startsWith {rest : List Char} (h : Ends rest) : Expr.startsWith Char.isDigit rest = false :=
  Expr.startsWith_eq_false_iff.2 fun c hc => (h c hc).1

theorem readDigits_append {ds rest : List Char} (hne : ds ≠ []) (hds : ∀ c ∈ ds, c.isDigit = true)
    (hrest : Expr.startsWith Char.isDigit rest = false) : readDigits (ds ++ rest) = some (ds, rest) := by
  unfold readDigits
  rw [Expr.takeWhile_run hds hrest, Expr.dropWhile_run hds hrest]
  cases ds with
  | nil => exact absurd rfl hne
  | cons d ds => rfl

theorem readWhole_append {n : Numeral} (hn : n.IsProper) {rest : List Char}
    (hrest : Expr.startsWith Char.isDigit rest = false) : readWhole (n.whole ++ rest) = some (n.whole, rest) := by
  unfold readWhole
  rw [readDigits_append hn.whole_ne_nil hn.isDigit_whole hrest]
  split
  · rename_i ds tail _ heq
    have hwhole : n.whole = '0' :: ds :: tail := congrArg Prod.fst (Option.some.inj heq)
    have hzero := hn.no_leading_zero (by rw [hwhole]; rfl)
    rw [hwhole] at hzero
    cases hzero
  · rfl

/-- The power of ten of a numeral, as it is written. -/
def exponentText (exponent : Option Int) : List Char :=
  match exponent with
  | none => []
  | some e => 'e' :: (if true && 0 ≤ e then ['+'] else []) ++ intText e

theorem readDigits_natText (n : Nat) {rest : List Char} (hrest : Ends rest) :
    readDigits (natText n ++ rest) = some (natText n, rest) :=
  readDigits_append Nat.toDigits_ne_nil (fun _ => isDigit_of_mem_natText) hrest.startsWith

theorem readExponent_append (exponent : Option Int) {rest : List Char} (hrest : Ends rest) :
    readExponent (exponentText exponent ++ rest) = some (exponent, rest) := by
  cases exponent with
  | none =>
    cases rest with
    | nil => rfl
    | cons c rest =>
      have hc := (hrest c rfl).2
      simp only [List.mem_cons, List.not_mem_nil, or_false, not_or] at hc
      simp [exponentText, readExponent, hc.2.1, hc.2.2]
  | some e =>
    by_cases he : e < 0
    · have htext : exponentText (some e) ++ rest = 'e' :: '-' :: (natText e.natAbs ++ rest) := by
        simp [exponentText, intText, he, show ¬ 0 ≤ e by omega]
      have habs : -((e.natAbs : Nat) : Int) = e := by omega
      rw [htext, readExponent, if_pos (.inl rfl)]
      simp only [readDigits_natText e.natAbs hrest, Option.map_some, ofDigits_natText, habs]
    · have htext : exponentText (some e) ++ rest = 'e' :: '+' :: (natText e.toNat ++ rest) := by
        simp [exponentText, intText, he, show 0 ≤ e by omega]
      have habs : ((e.toNat : Nat) : Int) = e := by omega
      rw [htext, readExponent, if_pos (.inl rfl)]
      simp only [readDigits_natText e.toNat hrest, Option.map_some, ofDigits_natText, habs]

/-- The point and the digits after it, as they are written. -/
def fractionText (fraction : List Char) : List Char := if fraction.isEmpty then [] else '.' :: fraction

theorem readFraction_append {fraction : List Char} (h : ∀ c ∈ fraction, c.isDigit = true) {rest : List Char}
    (hrest : Expr.startsWith Char.isDigit rest = false) (hpoint : rest.head? ≠ some '.') :
    readFraction (fractionText fraction ++ rest) = some (fraction, rest) := by
  cases fraction with
  | nil =>
    unfold readFraction fractionText
    split
    · rename_i heq
      simp only [List.isEmpty_nil, if_true, List.nil_append] at heq
      simp [heq] at hpoint
    · rfl
  | cons d ds => exact readDigits_append (List.cons_ne_nil d ds) h hrest

theorem startsWith_exponentText (exponent : Option Int) {rest : List Char} (hrest : Ends rest) :
    Expr.startsWith Char.isDigit (exponentText exponent ++ rest) = false ∧
      (exponentText exponent ++ rest).head? ≠ some '.' := by
  cases exponent with
  | none => exact ⟨hrest.startsWith, fun h => (hrest '.' h).2 (by simp)⟩
  | some e => exact ⟨rfl, by simp [exponentText]⟩

theorem readUnsigned_append {n : Numeral} (hn : n.IsProper) (negative : Bool) {rest : List Char} (hrest : Ends rest) :
    readUnsigned negative (n.whole ++ (fractionText n.fraction ++ (exponentText n.exponent ++ rest))) =
      some (⟨negative, n.whole, n.fraction, n.exponent⟩, rest) := by
  obtain ⟨hexp, hpoint⟩ := startsWith_exponentText n.exponent hrest
  have hfraction :
      Expr.startsWith Char.isDigit (fractionText n.fraction ++ (exponentText n.exponent ++ rest)) = false := by
    cases hf : n.fraction with
    | nil => exact hexp
    | cons d ds => rfl
  unfold readUnsigned
  rw [readWhole_append hn hfraction]
  simp only
  rw [readFraction_append hn.isDigit_fraction hexp hpoint]
  simp only
  rw [readExponent_append n.exponent hrest]
  rfl

theorem text_eq (n : Numeral) (rest : List Char) :
    n.text true ++ rest = (if n.negative then ['-'] else []) ++
      (n.whole ++ (fractionText n.fraction ++ (exponentText n.exponent ++ rest))) := by
  have htext : n.text true = (if n.negative then ['-'] else []) ++ n.whole ++ fractionText n.fraction ++
      exponentText n.exponent := rfl
  rw [htext, List.append_assoc, List.append_assoc, List.append_assoc]

theorem exists_head_whole {n : Numeral} (hn : n.IsProper) : ∃ d ds, n.whole = d :: ds ∧ d.isDigit = true := by
  obtain ⟨d, ds, hwhole⟩ := List.exists_cons_of_ne_nil hn.whole_ne_nil
  exact ⟨d, ds, hwhole, hn.isDigit_whole d (by simp [hwhole])⟩

/-- A proper numeral is read as it is written. -/
theorem readNumeral_text {n : Numeral} (hn : n.IsProper) {rest : List Char} (hrest : Ends rest) :
    readNumeral (n.text true ++ rest) = some (n, rest) := by
  have hread : readUnsigned n.negative (n.whole ++ (fractionText n.fraction ++ (exponentText n.exponent ++ rest))) =
      some (n, rest) := readUnsigned_append hn n.negative hrest
  rw [text_eq]
  cases hneg : n.negative with
  | true =>
    rw [hneg] at hread
    exact hread
  | false =>
    rw [hneg] at hread
    obtain ⟨d, ds, hwhole, hd⟩ := exists_head_whole hn
    rw [hwhole] at hread ⊢
    unfold readNumeral
    split
    · rename_i heq
      obtain rfl : d = '-' := (List.cons.inj heq).1
      exact absurd hd (by decide)
    · exact hread

/-! ## Texts -/

theorem joinPieces_char (c : Char) (ps : List Piece) : joinPieces (.char c :: ps) = (joinPieces ps).map (c :: ·) := by
  rw [joinPieces]

theorem joinPieces_unit {n : Nat} (h : n < 0xD800) (ps : List Piece) :
    joinPieces (.unit n :: ps) = (joinPieces ps).map (Char.ofNat n :: ·) := by
  have hhigh : isHighSurrogate n = false := by simp [isHighSurrogate]; omega
  have hlow : isLowSurrogate n = false := by simp [isLowSurrogate]; omega
  cases ps with
  | nil => simp [joinPieces, hhigh, hlow]
  | cons p ps => cases p <;> simp [joinPieces, hhigh, hlow]

theorem hexUnit?_hexDigit {n : Nat} (h : n < 0x20) :
    hexUnit? '0' '0' (hexDigit (n / 16)) (hexDigit (n % 16)) = some n := by
  have hall : ∀ n : Fin 32, hexUnit? '0' '0' (hexDigit (n / 16)) (hexDigit (n % 16)) = some n.val := by decide
  exact hall ⟨n, h⟩

theorem readPieces_short {e c : Char} (h : shortEscape? e = some c) (rest : List Char) :
    readPieces ('\\' :: e :: rest) = (readPieces rest).map fun q => (.char c :: q.1, q.2) := by
  have hu : e ≠ 'u' := by
    rintro rfl
    cases h
  rw [readPieces, h]
  · cases readPieces rest <;> rfl
  · intro a b x y tail heq
    exact absurd heq hu

theorem readPieces_unit {n : Nat} (h : n < 0x20) (rest : List Char) :
    readPieces ('\\' :: 'u' :: '0' :: '0' :: hexDigit (n / 16) :: hexDigit (n % 16) :: rest) =
      (readPieces rest).map fun q => (.unit n :: q.1, q.2) := by
  rw [readPieces, hexUnit?_hexDigit h]
  cases readPieces rest <;> rfl

theorem readPieces_plain {c : Char} (hquote : c ≠ '"') (hslash : c ≠ '\\') (h : ¬ c.toNat < 0x20) (rest : List Char) :
    readPieces (c :: rest) = (readPieces rest).map fun q => (.char c :: q.1, q.2) := by
  rw [readPieces, if_neg (by simp [hslash]; omega)]
  · cases readPieces rest <;> rfl
  · exact hquote
  · intro a b x y tail heq
    exact absurd heq hslash
  · intro e tail heq
    exact absurd heq hslash

/-- A character is written with a letter of its own, by its number, or as it is. -/
theorem escape_cases (c : Char) :
    (∃ e, escape c = ['\\', e] ∧ shortEscape? e = some c) ∨
      (c.toNat < 0x20 ∧
        escape c = ['\\', 'u', '0', '0', hexDigit (c.toNat / 16), hexDigit (c.toNat % 16)]) ∨
      (c ≠ '"' ∧ c ≠ '\\' ∧ ¬ c.toNat < 0x20 ∧ escape c = [c]) := by
  have hcode {n : Nat} (hn : c.toNat = n) : Char.ofNat n = c := by rw [← hn, Char.ofNat_toNat]
  unfold escape
  split_ifs with hquote hslash hline hreturn htab hback hform hcontrol
  · exact .inl ⟨_, rfl, by rw [hquote]; rfl⟩
  · exact .inl ⟨_, rfl, by rw [hslash]; rfl⟩
  · exact .inl ⟨_, rfl, by rw [hline]; rfl⟩
  · exact .inl ⟨_, rfl, by rw [hreturn]; rfl⟩
  · exact .inl ⟨_, rfl, by rw [htab]; rfl⟩
  · exact .inl ⟨_, rfl, congrArg some (hcode hback)⟩
  · exact .inl ⟨_, rfl, congrArg some (hcode hform)⟩
  · exact .inr (.inl ⟨hcontrol, rfl⟩)
  · exact .inr (.inr ⟨hquote, hslash, hcontrol, rfl⟩)

/-- A written character is read as one part, which stands for it. -/
theorem readPieces_escape (c : Char) (rest : List Char) :
    ∃ p, readPieces (escape c ++ rest) = (readPieces rest).map (fun q => (p :: q.1, q.2)) ∧
      ∀ ps, joinPieces (p :: ps) = (joinPieces ps).map (c :: ·) := by
  obtain ⟨e, hescape, he⟩ | ⟨hlt, hescape⟩ | ⟨hquote, hslash, hlt, hescape⟩ := escape_cases c
  · rw [hescape]
    exact ⟨.char c, readPieces_short he rest, joinPieces_char c⟩
  · rw [hescape]
    refine ⟨.unit c.toNat, readPieces_unit hlt rest, fun ps => ?_⟩
    rw [joinPieces_unit (by omega), Char.ofNat_toNat]
  · rw [hescape]
    exact ⟨.char c, readPieces_plain hquote hslash hlt rest, joinPieces_char c⟩

/-- A text is read as it is written. -/
theorem readText_escape (s : String) (rest : List Char) :
    readText (s.toList.flatMap escape ++ '"' :: rest) = some (some s, rest) := by
  have hpieces : ∀ cs : List Char, ∃ ps, readPieces (cs.flatMap escape ++ '"' :: rest) = some (ps, rest) ∧
      joinPieces ps = some cs := by
    intro cs
    induction cs with
    | nil => exact ⟨[], by simp [readPieces], rfl⟩
    | cons c cs ih =>
      obtain ⟨ps, hread, hjoin⟩ := ih
      obtain ⟨p, hp, hc⟩ := readPieces_escape c (cs.flatMap escape ++ '"' :: rest)
      refine ⟨p :: ps, ?_, by rw [hc, hjoin]; rfl⟩
      rw [List.flatMap_cons, List.append_assoc, hp, hread]
      rfl
  obtain ⟨ps, hread, hjoin⟩ := hpieces s.toList
  simp [readText, hread, hjoin]

end SceneScript.Json
