import SceneScript.Proofs.Collect
import SceneScript.Proofs.Expr.Lexeme

/-!
# What is read is derived

Each call of the reader is opened once, in an equation that says what it returns, faults included; from the
equation follows when the call succeeds.  From these lemmas follows, by induction on the budget, that an
expression that is read is derived by the grammar from the text before the rest.

    readTier sym fuel tier cs = .ok (e, rest) →
      ∃ ls, Derives sym tier ls e ∧ Spells sym ls cs rest            (derives_of_readTier)
-/

namespace SceneScript.Expr

/-! ## The steps of the reader -/

/-- The expression of a bracket, if `close` follows it. -/
def closed (close : Char) (p : Expr × List Char) : Parsed :=
  if (Text.trimStart p.2).head? = some close then .ok (p.1, (Text.trimStart p.2).tail)
  else .error (.missingBracket close)

section

variable {sym : Symbols} {fuel : Nat} {tier : Tier} {cs : List Char} {r : Expr × List Char}

section

-- the lemmas below open the reader; later proofs go by these lemmas
attribute [local simp] readTier readChain

theorem readTier_chain_eq (h : tier.IsChain) :
    readTier sym (fuel + 1) tier cs =
      (readTier sym fuel tier.next cs).bind fun p => readChain sym fuel tier p.1 p.2 := by
  cases hread : readTier sym fuel tier.next cs <;>
    rcases h.shape with rfl | rfl | rfl | rfl <;> simp [hread, Except.bind]

theorem readTier_lead_eq (h : tier = .negation ∨ tier = .sign) :
    readTier sym (fuel + 1) tier cs =
      (tier.leading? (Text.trimStart cs)).elim (readTier sym fuel tier.next (Text.trimStart cs)) fun rest =>
        (readTier sym fuel tier rest).map fun p => (tier.wrap p.1, p.2) := by
  cases hlead : tier.leading? (Text.trimStart cs) with
  | none => rcases h with rfl | rfl <;> simp [hlead]
  | some rest =>
    cases hread : readTier sym fuel tier rest <;>
      rcases h with rfl | rfl <;> simp [hlead, hread, Except.map]

theorem readTier_comparison_eq :
    readTier sym (fuel + 1) .comparison cs =
      (readTier sym fuel .sum cs).bind fun p =>
        (Tier.comparison.operator? (Text.trimStart p.2)).elim (.ok (p.1, Text.trimStart p.2)) fun q =>
          (readTier sym fuel .sum q.2).map fun r => (.binary q.1 p.1 r.1, r.2) := by
  cases hleft : readTier sym fuel .sum cs with
  | error fault => simp [hleft, Except.bind]
  | ok p =>
    cases hop : Tier.comparison.operator? (Text.trimStart p.2) with
    | none => simp [hleft, hop, Except.bind]
    | some q => cases hread : readTier sym fuel .sum q.2 <;> simp [hleft, hop, hread, Except.bind, Except.map]

theorem readTier_end_eq (htrim : Text.trimStart cs = []) :
    readTier sym (fuel + 1) .primary cs = .error .unexpectedEnd := by
  simp [htrim]

theorem readTier_atom_eq {c : Char} {tail : List Char} (htrim : Text.trimStart cs = c :: tail)
    (h : closing? sym c = none) : readTier sym (fuel + 1) .primary cs = readAtom sym c tail := by
  simp [htrim, h]

theorem readTier_bracket_eq {c close : Char} {tail : List Char} (htrim : Text.trimStart cs = c :: tail)
    (h : closing? sym c = some close) :
    readTier sym (fuel + 1) .primary cs = (readTier sym fuel .disjunction tail).bind (closed close) := by
  cases hread : readTier sym fuel .disjunction tail with
  | error fault => simp [htrim, h, hread, Except.bind]
  | ok p => cases hrest : Text.trimStart p.2 <;> simp [htrim, h, hread, hrest, Except.bind, closed]

theorem readChain_eq {left : Expr} :
    readChain sym (fuel + 1) tier left cs =
      (tier.operator? (Text.trimStart cs)).elim (.ok (left, Text.trimStart cs)) fun q =>
        (readTier sym fuel tier.next q.2).bind fun p => readChain sym fuel tier (.binary q.1 left p.1) p.2 := by
  cases hop : tier.operator? (Text.trimStart cs) with
  | none => simp [hop]
  | some q => cases hread : readTier sym fuel tier.next q.2 <;> simp [hop, hread, Except.bind]

end

theorem readTier_chain_eq_ok_iff (h : tier.IsChain) :
    readTier sym (fuel + 1) tier cs = .ok r ↔
      ∃ left rest, readTier sym fuel tier.next cs = .ok (left, rest) ∧
        readChain sym fuel tier left rest = .ok r := by
  rw [readTier_chain_eq h, bind_eq_ok_iff, Prod.exists]

theorem readTier_lead_eq_ok_iff (h : tier = .negation ∨ tier = .sign) :
    readTier sym (fuel + 1) tier cs = .ok r ↔
      (tier.leading? (Text.trimStart cs) = none ∧
        readTier sym fuel tier.next (Text.trimStart cs) = .ok r) ∨
      ∃ mid e rest, tier.leading? (Text.trimStart cs) = some mid ∧
        readTier sym fuel tier mid = .ok (e, rest) ∧ r = (tier.wrap e, rest) := by
  rw [readTier_lead_eq h]
  cases hlead : tier.leading? (Text.trimStart cs) with
  | none => simp
  | some mid => simp [map_eq_ok_iff, eq_comm (a := r)]

theorem readTier_comparison_eq_ok_iff :
    readTier sym (fuel + 1) .comparison cs = .ok r ↔
      ∃ left rest, readTier sym fuel .sum cs = .ok (left, rest) ∧
        ((Tier.comparison.operator? (Text.trimStart rest) = none ∧ r = (left, Text.trimStart rest)) ∨
          ∃ op mid right tail, Tier.comparison.operator? (Text.trimStart rest) = some (op, mid) ∧
            readTier sym fuel .sum mid = .ok (right, tail) ∧ r = (.binary op left right, tail)) := by
  rw [readTier_comparison_eq, bind_eq_ok_iff, Prod.exists]
  refine exists_congr fun left => exists_congr fun rest => and_congr_right fun _ => ?_
  dsimp only
  cases hop : Tier.comparison.operator? (Text.trimStart rest) with
  | none => simp [eq_comm (a := r)]
  | some q => simp [map_eq_ok_iff, Prod.ext_iff (x := q), and_assoc, eq_comm (a := r)]

theorem closed_eq_ok_iff {close : Char} {e : Expr} {mid : List Char} :
    closed close (e, mid) = .ok r ↔ ∃ rest, Text.trimStart mid = close :: rest ∧ r = (e, rest) := by
  unfold closed
  cases Text.trimStart mid with
  | nil => simp
  | cons d rest =>
    by_cases hd : d = close
    · simp [hd, eq_comm (a := r)]
    · simp [hd]

theorem readTier_primary_eq_ok_iff :
    readTier sym (fuel + 1) .primary cs = .ok r ↔
      ∃ c tail, Text.trimStart cs = c :: tail ∧
        ((closing? sym c = none ∧ readAtom sym c tail = .ok r) ∨
          ∃ close e mid rest, closing? sym c = some close ∧
            readTier sym fuel .disjunction tail = .ok (e, mid) ∧ Text.trimStart mid = close :: rest ∧
            r = (e, rest)) := by
  cases htrim : Text.trimStart cs with
  | nil => simp [readTier_end_eq htrim]
  | cons c tail =>
    cases hclose : closing? sym c with
    | none => simp [readTier_atom_eq htrim hclose, hclose, and_assoc]
    | some close =>
      rw [readTier_bracket_eq htrim hclose, bind_eq_ok_iff, Prod.exists]
      simp [closed_eq_ok_iff, hclose, and_assoc]

theorem readChain_eq_ok_iff {left : Expr} :
    readChain sym (fuel + 1) tier left cs = .ok r ↔
      (tier.operator? (Text.trimStart cs) = none ∧ r = (left, Text.trimStart cs)) ∨
        ∃ op mid right rest, tier.operator? (Text.trimStart cs) = some (op, mid) ∧
          readTier sym fuel tier.next mid = .ok (right, rest) ∧
          readChain sym fuel tier (.binary op left right) rest = .ok r := by
  rw [readChain_eq]
  cases hop : tier.operator? (Text.trimStart cs) with
  | none => simp [eq_comm (a := r)]
  | some q =>
    obtain ⟨op, mid⟩ := q
    simp [bind_eq_ok_iff, and_assoc]

end

/-! ## Soundness -/

theorem spells_of_eat?_word {sym : Symbols} {w : String} {cs rest : List Char}
    (h : (Token.word w).eat? cs = some rest) : Spells sym [.word w] cs rest := by
  have hexact : (Token.word w).IsExact := trivial
  obtain ⟨text, tail, rfl, hl, rfl⟩ := (Token.eat?_eq_some_iff hexact sym).1 h
  exact (Spells.single hl).trimRest

theorem spells_of_readText {sym : Symbols} {c close : Char} (hq : (c, close) ∈ sym.quotes)
    {cs rest : List Char} {e : Expr} (h : readText close cs = .ok (e, rest)) :
    ∃ l, IsAtom l e ∧ Spells sym [l] (c :: cs) rest := by
  obtain ⟨s, rfl, rfl, hclose⟩ := readText_eq_ok_iff.1 h
  have hl : (Lexeme.text s).Spelled sym (c :: (s.toList ++ [close])) rest := ⟨_, hq, rfl, hclose⟩
  exact ⟨_, .text s, by simpa using Spells.single hl⟩

theorem spells_of_readAtom {sym : Symbols} {c : Char} {cs rest : List Char} {e : Expr}
    (h : readAtom sym c cs = .ok (e, rest)) :
    ∃ l, IsAtom l e ∧ Spells sym [l] (c :: cs) rest := by
  unfold readAtom at h
  split at h
  · rename_i hc
    split at h
    · cases h
    · rename_i name tail hname
      obtain ⟨rfl, rfl⟩ : _ ∧ _ := by simpa using h
      obtain ⟨rfl, hne, hchars, hstop⟩ := readName_eq_ok_iff.1 hname
      have hl : (Lexeme.name name).Spelled sym (c :: name.toList) tail := ⟨by rw [hc], hne, hchars, hstop⟩
      exact ⟨_, .var name, Spells.single hl⟩
  split at h
  · rename_i hc
    exact spells_of_readText (by rcases hc with rfl | rfl <;> simp [Symbols.quotes]) h
  split at h
  · rename_i hc
    exact spells_of_readText (by simp [Symbols.quotes, hc]) h
  split at h
  · rename_i tail htrue
    obtain ⟨rfl, rfl⟩ : _ ∧ _ := by simpa using h
    exact ⟨_, .yes, spells_of_eat?_word htrue⟩
  · rename_i tail _ hfalse
    obtain ⟨rfl, rfl⟩ : _ ∧ _ := by simpa using h
    exact ⟨_, .no, spells_of_eat?_word hfalse⟩
  · split at h
    · rename_i hdigit
      have hcs : startsWith Char.isDigit (c :: cs) = true := hdigit
      obtain ⟨l, text, htext, hl, he⟩ := spelled_of_readNumber sym hcs h
      exact ⟨l, he, htext ▸ Spells.single hl⟩
    · cases h

theorem mem_brackets_of_closing? {sym : Symbols} {c close : Char} (h : closing? sym c = some close) :
    (c, close) ∈ sym.brackets := by
  unfold closing? at h
  split at h
  · rename_i hc
    obtain rfl := Option.some.inj h
    simp [Symbols.brackets, hc]
  · split at h <;> simp_all [Symbols.brackets]

theorem derives_leading {sym : Symbols} {tier : Tier} {t : Token} (ht : t ∈ tier.leading)
    {ls : List Lexeme} {e : Expr} (h : Derives sym tier ls e) :
    Derives sym tier (t.lexeme :: ls) (tier.wrap e) := by
  cases tier with
  | negation =>
    refine .not ?_ h
    rcases List.mem_cons.1 ht with rfl | ht
    · exact List.mem_cons_self
    · obtain rfl := List.mem_singleton.1 ht
      exact List.mem_cons_of_mem _ List.mem_cons_self
  | sign =>
    obtain rfl := List.mem_singleton.1 ht
    exact .neg h
  | disjunction | conjunction | comparison | sum | product | primary => cases ht

/-- What the reader makes of a text with a given budget is derived by the grammar; a chain goes on with what
has been derived before it. -/
theorem derives_of_read (sym : Symbols) (fuel : Nat) :
    (∀ {tier cs e rest}, readTier sym fuel tier cs = .ok (e, rest) →
      ∃ ls, Derives sym tier ls e ∧ Spells sym ls cs rest) ∧
    ∀ {tier left cs e rest}, tier.IsChain → readChain sym fuel tier left cs = .ok (e, rest) →
      ∀ {ls start}, Derives sym tier ls left → Spells sym ls start cs →
        ∃ ms, Derives sym tier ms e ∧ Spells sym ms start rest := by
  induction fuel with
  | zero =>
    refine ⟨?_, ?_⟩
    · intro tier cs e rest h
      simp [readTier] at h
    · intro tier left cs e rest _ h
      simp [readChain] at h
  | succ fuel ih =>
    obtain ⟨ihtier, ihchain⟩ := ih
    refine ⟨?_, ?_⟩
    · intro tier cs e rest h
      have hblanks : Spells sym [] cs (Text.trimStart cs) := spells_trimStart cs
      rcases tier.shape with ht | ht | rfl | rfl
      · obtain ⟨left, mid, hleft, hrest⟩ := (readTier_chain_eq_ok_iff ht).1 h
        obtain ⟨ls, hls, hspells⟩ := ihtier hleft
        exact ihchain ht hrest (.stronger ht.ne_primary hls) hspells
      · obtain ⟨-, hread⟩ | ⟨mid, e', tail, hl, hread, he⟩ := (readTier_lead_eq_ok_iff ht).1 h
        · obtain ⟨ls, hls, hspells⟩ := ihtier hread
          exact ⟨ls, .stronger (Tier.ne_primary_of_lead ht) hls, hblanks.append hspells⟩
        · obtain ⟨rfl, rfl⟩ := Prod.mk.inj he
          obtain ⟨ls, hls, hspells⟩ := ihtier hread
          obtain ⟨t, ht, hmid⟩ := Tier.spelled_of_leading? sym hl
          exact ⟨_, derives_leading ht hls, hblanks.append (hmid.append hspells)⟩
      · obtain ⟨left, mid, hleft, hrest⟩ := readTier_comparison_eq_ok_iff.1 h
        obtain ⟨ls, hls, hspells⟩ := ihtier hleft
        obtain ⟨-, he⟩ | ⟨op, mid', right, tail, hop, hright, he⟩ := hrest
        · obtain ⟨rfl, rfl⟩ := Prod.mk.inj he
          exact ⟨ls, .stronger (by decide) hls, hspells.trimRest⟩
        · obtain ⟨rfl, rfl⟩ := Prod.mk.inj he
          obtain ⟨l, hl, hmid⟩ := Tier.spelled_of_operator? sym hop
          obtain ⟨ms, hms, hspells'⟩ := ihtier hright
          exact ⟨_, .comparison hls hl hms, hspells.trimRest.append (hmid.append hspells')⟩
      · obtain ⟨c, tail, htrim, ⟨-, hatom⟩ | ⟨close, e', mid, rest', hclose, hread, hmid, he⟩⟩ :=
          readTier_primary_eq_ok_iff.1 h
        · obtain ⟨l, hl, hspells⟩ := spells_of_readAtom hatom
          rw [htrim] at hblanks
          exact ⟨[l], .atom hl, hblanks.append hspells⟩
        · obtain ⟨rfl, rfl⟩ := Prod.mk.inj he
          obtain ⟨ls, hls, hspells⟩ := ihtier hread
          rw [htrim] at hblanks
          have hopen : Spells sym [.bracket c] (c :: tail) tail := spells_bracket c tail
          have hend : Spells sym [.bracket close] (close :: rest) rest := spells_bracket close rest
          have hbody := hspells.trimRest
          rw [hmid] at hbody
          exact ⟨_, .bracket (mem_brackets_of_closing? hclose) hls,
            hblanks.append (hopen.append (hbody.append hend))⟩
    · intro tier left cs e rest ht h ls start hls hspells
      obtain ⟨-, he⟩ | ⟨op, mid, right, rest', hop, hright, hrest⟩ := readChain_eq_ok_iff.1 h
      · obtain ⟨rfl, rfl⟩ := Prod.mk.inj he
        exact ⟨ls, hls, hspells.trimRest⟩
      · obtain ⟨l, hl, hmid⟩ := Tier.spelled_of_operator? sym hop
        obtain ⟨ms, hms, hspells'⟩ := ihtier hright
        exact ihchain ht hrest (.chain ht hls hl hms) (hspells.trimRest.append (hmid.append hspells'))

theorem derives_of_readTier {sym : Symbols} {fuel : Nat} {tier : Tier} {cs rest : List Char} {e : Expr}
    (h : readTier sym fuel tier cs = .ok (e, rest)) :
    ∃ ls, Derives sym tier ls e ∧ Spells sym ls cs rest :=
  (derives_of_read sym fuel).1 h

end SceneScript.Expr
