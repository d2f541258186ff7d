import SceneScript.Program.Saved
import SceneScript.Proofs.Json.Faithful

/-!
# Loading undoes saving

A program is loaded as it was saved exactly if its floats are finite, its positions are words of 64 bits and its text
does not nest too deep; and a program that was loaded, from any text, is of that kind.  Floats whose text is read as
another float are left out by a hypothesis.

    load? p.save = some p ↔ p.IsSavable                              (load?_save_iff)
-/

namespace SceneScript

open Json

/-! ## What a program holds -/

def Value.floats : Value → List Float
  | float x => [x]
  | _ => []

def Expr.floats : Expr → List Float
  | literal v => v.floats
  | var _ => []
  | assign _ value => value.floats
  | binary _ left right => left.floats ++ right.floats
  | not e => e.floats
  | neg e => e.floats

def Instruction.floats : Instruction → List Float
  | action _ args => args.flatMap Value.floats
  | condition test _ _ => test.floats
  | yield value => value.toList.flatMap Expr.floats
  | compute e => e.floats
  | _ => []

/-- The float is finite, and its text reads back. -/
def Recovers (x : Float) : Prop := x.isFinite = true ∧ ReadsBack x

/-! ## Values and expressions -/

theorem depth_tagged_le_iff {name : String} {j : Json} {n : Nat} :
    (tagged name j).depth ≤ n ↔ ∃ m, n = m + 1 ∧ j.depth ≤ m := by
  simp [tagged, depth_record_le_iff]

theorem depth_tagged_record_le_iff {name : String} {fields : List (String × Json)} {n : Nat} :
    (tagged name (record fields)).depth ≤ n ↔ ∃ m, n = m + 2 ∧ ∀ f ∈ fields, f.2.depth ≤ m := by
  simp only [depth_tagged_le_iff, depth_record_le_iff]
  constructor
  · rintro ⟨_, rfl, m, rfl, hm⟩
    exact ⟨m, rfl, hm⟩
  · rintro ⟨m, rfl, hm⟩
    exact ⟨m + 1, rfl, m, rfl, hm⟩

@[simp] theorem depth_ofText (s : String) : (ofText s).depth = 0 := rfl

@[simp] theorem depth_ofInt (n : Int) : (ofInt n).depth = 0 := rfl

theorem faithful_value : Faithful Value.decode Value.toJson (fun v => ∀ x ∈ v.floats, Recovers x)
    (fun v => ∀ x ∈ v.floats, x.isFinite = true) where
  complete {depth v} hgood hdepth := by
    cases v with
    | int n =>
      obtain ⟨m, rfl, hm⟩ := depth_tagged_le_iff.1 hdepth
      exact congrArg (Option.map Value.int) (faithful_int64.complete trivial hm)
    | float x =>
      obtain ⟨m, rfl, hm⟩ := depth_tagged_le_iff.1 hdepth
      exact congrArg (Option.map Value.float) (faithful_float.complete (hgood x (by simp [Value.floats])) hm)
    | text s =>
      obtain ⟨m, rfl, hm⟩ := depth_tagged_le_iff.1 hdepth
      rfl
    | bool b =>
      obtain ⟨m, rfl, hm⟩ := depth_tagged_le_iff.1 hdepth
      rfl
  sound {depth j v} h := by
    unfold Value.decode at h
    split at h
    · cases h
    · rename_i c hc
      split_ifs at h
      · obtain ⟨n, hn, rfl⟩ := Option.map_eq_some_iff.1 h
        obtain ⟨m, rfl, -, hm⟩ := faithful_int64.payload? hc hn
        exact ⟨by simp [Value.floats], depth_tagged_le_iff.2 ⟨m, rfl, hm⟩⟩
      · obtain ⟨x, hx, rfl⟩ := Option.map_eq_some_iff.1 h
        obtain ⟨m, rfl, hfinite, hm⟩ := faithful_float.payload? hc hx
        exact ⟨by simpa [Value.floats] using hfinite, depth_tagged_le_iff.2 ⟨m, rfl, hm⟩⟩
      · obtain ⟨s, hs, rfl⟩ := Option.map_eq_some_iff.1 h
        obtain ⟨m, rfl, -, hm⟩ := faithful_text.payload? hc hs
        exact ⟨by simp [Value.floats], depth_tagged_le_iff.2 ⟨m, rfl, hm⟩⟩
      · obtain ⟨b, hb, rfl⟩ := Option.map_eq_some_iff.1 h
        obtain ⟨m, rfl, -, hm⟩ := faithful_bool.payload? hc hb
        exact ⟨by simp [Value.floats], depth_tagged_le_iff.2 ⟨m, rfl, hm⟩⟩

theorem faithful_binaryOp :
    Faithful BinaryOp.decode (fun op => ofText op.name) (fun _ => True) (fun _ => True) where
  complete {depth op} _ _ := by
    unfold BinaryOp.decode
    rw [choice?_ofText]
    cases op <;> rfl
  sound _ := ⟨trivial, Nat.zero_le _⟩

/-- What an expression is read from: something one level below, or two levels below where it has fields. -/
theorem Expr.decode_cases {n : Nat} {j : Json} {e : Expr} (h : Expr.decode n j = some e) :
    (∃ m k v, n = m + 1 ∧ Value.decode m k = some v ∧ e = .literal v) ∨
      (∃ m name, n = m + 1 ∧ e = .var name) ∨
      (∃ m k a, n = m + 1 ∧ Expr.decode m k = some a ∧ (e = .not a ∨ e = .neg a)) ∨
      (∃ m k name a, n = m + 2 ∧ Expr.decode m k = some a ∧ e = .assign name a) ∨
      ∃ m k l op a b, n = m + 2 ∧ Expr.decode m k = some a ∧ Expr.decode m l = some b ∧ e = .binary op a b := by
  cases n with
  | zero => cases h
  | succ n =>
    rw [Expr.decode] at h
    split at h
    · cases h
    · cases h
    · rename_i name m k hc
      split_ifs at h
      · obtain ⟨v, hv, rfl⟩ := Option.map_eq_some_iff.1 h
        exact .inl ⟨n, k, v, rfl, hv, rfl⟩
      · obtain ⟨name, -, rfl⟩ := Option.map_eq_some_iff.1 h
        exact .inr (.inl ⟨n, name, rfl, rfl⟩)
      · obtain ⟨a, ha, rfl⟩ := Option.map_eq_some_iff.1 h
        exact .inr (.inr (.inl ⟨n, k, a, rfl, ha, .inl rfl⟩))
      · obtain ⟨a, ha, rfl⟩ := Option.map_eq_some_iff.1 h
        exact .inr (.inr (.inl ⟨n, k, a, rfl, ha, .inr rfl⟩))
      · cases n with
        | zero => cases h
        | succ inner =>
          simp only at h
          split at h
          · cases h
          · split at h
            · rename_i ha
              cases h
              obtain ⟨k, -, hk⟩ := Option.bind_eq_some_iff.1 ha
              exact .inr (.inr (.inr (.inl ⟨inner, k, _, _, rfl, hk, rfl⟩)))
            · cases h
      · cases n with
        | zero => cases h
        | succ inner =>
          simp only at h
          split at h
          · cases h
          · split at h
            · rename_i ha hb
              cases h
              obtain ⟨k, -, hk⟩ := Option.bind_eq_some_iff.1 ha
              obtain ⟨l, -, hl⟩ := Option.bind_eq_some_iff.1 hb
              exact .inr (.inr (.inr (.inr ⟨inner, k, l, _, _, _, rfl, hk, hl, rfl⟩)))
            · cases h
      · cases n <;> cases h

theorem Expr.sound_decode {n : Nat} {j : Json} {e : Expr} (h : Expr.decode n j = some e) :
    (∀ x ∈ e.floats, x.isFinite = true) ∧ e.toJson.depth ≤ n := by
  induction n using Nat.strongRecOn generalizing j e with
  | ind n ih =>
    obtain ⟨m, k, v, rfl, hv, rfl⟩ | ⟨m, name, rfl, rfl⟩ | ⟨m, k, a, rfl, ha, he⟩ | ⟨m, k, name, a, rfl, ha, rfl⟩ |
      ⟨m, k, l, op, a, b, rfl, ha, hb, rfl⟩ := Expr.decode_cases h
    · obtain ⟨hfloats, hm⟩ := faithful_value.sound hv
      exact ⟨hfloats, depth_tagged_le_iff.2 ⟨m, rfl, hm⟩⟩
    · exact ⟨by simp [Expr.floats], depth_tagged_le_iff.2 ⟨m, rfl, Nat.zero_le m⟩⟩
    · obtain ⟨hfloats, hm⟩ := ih m (by omega) ha
      rcases he with rfl | rfl <;> exact ⟨hfloats, depth_tagged_le_iff.2 ⟨m, rfl, hm⟩⟩
    · obtain ⟨hfloats, hm⟩ := ih m (by omega) ha
      exact ⟨hfloats, depth_tagged_record_le_iff.2 ⟨m, rfl, by simp [hm]⟩⟩
    · obtain ⟨hfloats₁, hm₁⟩ := ih m (by omega) ha
      obtain ⟨hfloats₂, hm₂⟩ := ih m (by omega) hb
      exact ⟨List.forall_mem_append.2 ⟨hfloats₁, hfloats₂⟩,
        depth_tagged_record_le_iff.2 ⟨m, rfl, by simp [hm₁, hm₂]⟩⟩

theorem choice?_tagged (n : Nat) (name : String) (j : Json) :
    choice? (n + 1) (tagged name j) = some ⟨name, some (n, j)⟩ := rfl

theorem Expr.complete_decode {n : Nat} {e : Expr} (hgood : ∀ x ∈ e.floats, Recovers x) (hdepth : e.toJson.depth ≤ n) :
    Expr.decode n e.toJson = some e := by
  induction e generalizing n with
  | literal v =>
    obtain ⟨m, rfl, hm⟩ := depth_tagged_le_iff.1 hdepth
    simp [Expr.toJson, Expr.decode, choice?_tagged, faithful_value.complete hgood hm]
  | var name =>
    obtain ⟨m, rfl, hm⟩ := depth_tagged_le_iff.1 hdepth
    simp [Expr.toJson, Expr.decode, choice?_tagged, faithful_text.complete trivial hm]
  | assign name value ih =>
    obtain ⟨k, rfl, hk⟩ := depth_tagged_record_le_iff.1 hdepth
    have hname := faithful_text.complete trivial (hk ("name", ofText name) (by simp))
    have hvalue := ih hgood (hk ("value", value.toJson) (by simp))
    simp [Expr.toJson, Expr.decode, choice?_tagged, Fields.required, Fields.get?, hname, hvalue]
  | binary op left right ihl ihr =>
    obtain ⟨k, rfl, hk⟩ := depth_tagged_record_le_iff.1 hdepth
    obtain ⟨hgoodl, hgoodr⟩ := List.forall_mem_append.1 hgood
    have hop := faithful_binaryOp.complete trivial (hk ("op", ofText op.name) (by simp))
    have hleft := ihl hgoodl (hk ("left", left.toJson) (by simp))
    have hright := ihr hgoodr (hk ("right", right.toJson) (by simp))
    simp [Expr.toJson, Expr.decode, choice?_tagged, Fields.required, Fields.get?, hop, hleft, hright]
  | not e ih =>
    obtain ⟨m, rfl, hm⟩ := depth_tagged_le_iff.1 hdepth
    simp [Expr.toJson, Expr.decode, choice?_tagged, ih hgood hm]
  | neg e ih =>
    obtain ⟨m, rfl, hm⟩ := depth_tagged_le_iff.1 hdepth
    simp [Expr.toJson, Expr.decode, choice?_tagged, ih hgood hm]

theorem Expr.toJson_ne_null (e : Expr) : e.toJson ≠ .null := by
  cases e <;> simp [Expr.toJson, tagged, record]

theorem faithful_expr : Faithful Expr.decode Expr.toJson (fun e => ∀ x ∈ e.floats, Recovers x)
    (fun e => ∀ x ∈ e.floats, x.isFinite = true) :=
  ⟨Expr.complete_decode, Expr.sound_decode⟩

/-! ## Instructions -/

theorem depth_orNull_le_iff {α : Type} {enc : α → Json} {o : Option α} {n : Nat} :
    (orNull enc o).depth ≤ n ↔ ∀ a ∈ o, (enc a).depth ≤ n := by
  cases o <;> simp [orNull, depth]

theorem optional_orNull {α : Type} {dec : Decoder α} {enc : α → Json} {n : Nat} {o : Option α}
    (hnull : ∀ a, enc a ≠ .null) (h : ∀ a ∈ o, dec n (enc a) = some a) :
    Decode.optional dec n (orNull enc o) = some o := by
  cases o with
  | none => rfl
  | some a =>
    unfold Decode.optional orNull
    split
    · rename_i heq
      exact absurd heq (hnull a)
    · rw [h a rfl]
      rfl

/-- The positions of the instruction are words of 64 bits. -/
def Instruction.IsWide (i : Instruction) : Prop := ∀ d ∈ i.destinations, d < UInt64.size

theorem Instruction.sound_decodeWith {name : String} {n : Nat} {j : Json} {i : Instruction}
    (h : Instruction.decodeWith name n j = some i) :
    ((∀ x ∈ i.floats, x.isFinite = true) ∧ i.IsWide) ∧ i.toJson.depth ≤ n + 1 := by
  unfold Instruction.decodeWith at h
  split_ifs at h
  all_goals
    obtain ⟨r, hr, hi⟩ := Option.bind_eq_some_iff.1 h
    obtain rfl := depth_of_fields? hr
  · split at hi
    · rename_i hargs
      cases hi
      obtain ⟨hfloats, hdepth⟩ := faithful_value.list.required hargs
      exact ⟨⟨List.forall_mem_flatMap.2 hfloats, by simp [IsWide, destinations]⟩,
        depth_tagged_record_le_iff.2 ⟨r.depth, rfl, by simpa using hdepth⟩⟩
    · cases hi
  · split at hi
    · rename_i htest htrue hfalse
      cases hi
      obtain ⟨hfloats, hdepth⟩ := faithful_expr.required htest
      have hwide := And.intro (faithful_nat64.required htrue).1 (faithful_nat64.required hfalse).1
      exact ⟨⟨hfloats, by simpa [IsWide, destinations] using hwide⟩,
        depth_tagged_record_le_iff.2 ⟨r.depth, rfl, by simpa using hdepth⟩⟩
    · cases hi
  · obtain ⟨d, hd, rfl⟩ := Option.map_eq_some_iff.1 hi
    have hwide := (faithful_nat64.required hd).1
    exact ⟨⟨by simp [floats], by simpa [IsWide, destinations] using hwide⟩,
      depth_tagged_record_le_iff.2 ⟨r.depth, rfl, by simp⟩⟩
  · obtain ⟨d, hd, rfl⟩ := Option.map_eq_some_iff.1 hi
    have hwide := (faithful_nat64.required hd).1
    exact ⟨⟨by simp [floats], by simpa [IsWide, destinations] using hwide⟩,
      depth_tagged_record_le_iff.2 ⟨r.depth, rfl, by simp⟩⟩
  · obtain ⟨s, hs, rfl⟩ := Option.map_eq_some_iff.1 hi
    exact ⟨⟨by simp [floats], by simp [IsWide, destinations]⟩,
      depth_tagged_record_le_iff.2 ⟨r.depth, rfl, by simp⟩⟩
  · obtain ⟨o, ho, rfl⟩ := Option.map_eq_some_iff.1 hi
    exact ⟨⟨by simp [floats], by simp [IsWide, destinations]⟩,
      depth_tagged_record_le_iff.2 ⟨r.depth, rfl, by simp [depth_orNull_le_iff]⟩⟩
  · obtain ⟨o, ho, rfl⟩ := Option.map_eq_some_iff.1 hi
    have hall := faithful_expr.optional ho
    refine ⟨⟨List.forall_mem_flatMap.2 fun e he => (hall e (Option.mem_toList.1 he)).1, by simp [IsWide, destinations]⟩,
      depth_tagged_record_le_iff.2 ⟨r.depth, rfl, ?_⟩⟩
    simpa [depth_orNull_le_iff] using fun e he => (hall e he).2
  · obtain ⟨e, he, rfl⟩ := Option.map_eq_some_iff.1 hi
    obtain ⟨hfloats, hdepth⟩ := faithful_expr.required he
    exact ⟨⟨hfloats, by simp [IsWide, destinations]⟩,
      depth_tagged_record_le_iff.2 ⟨r.depth, rfl, by simpa using hdepth⟩⟩

theorem Instruction.sound_decode {n : Nat} {j : Json} {i : Instruction} (h : Instruction.decode n j = some i) :
    ((∀ x ∈ i.floats, x.isFinite = true) ∧ i.IsWide) ∧ i.toJson.depth ≤ n := by
  unfold Instruction.decode at h
  split at h
  · cases h
  · rename_i c hc
    split_ifs at h
    · cases h
      exact ⟨⟨by simp [floats], by simp [IsWide, destinations]⟩, Nat.zero_le n⟩
    · cases h
      exact ⟨⟨by simp [floats], by simp [IsWide, destinations]⟩, Nat.zero_le n⟩
    · cases h
      exact ⟨⟨by simp [floats], by simp [IsWide, destinations]⟩, Nat.zero_le n⟩
    · obtain ⟨m, k, rfl, hk⟩ := exists_of_payload? hc h
      exact sound_decodeWith hk

/-- An instruction with fields is read from the record beside its name. -/
theorem Instruction.decode_record {name : String} (hname : name ∉ ["BlockEnd", "Return", "Stop"])
    {fields : List (String × Json)} (n : Nat) :
    Instruction.decode (n + 2) (tagged name (record fields)) = Instruction.decodeWith name (n + 1) (record fields) := by
  simp only [List.mem_cons, List.not_mem_nil, or_false, not_or] at hname
  simp [Instruction.decode, choice?_tagged, Choice.payload?, hname]

theorem Instruction.complete_decode {n : Nat} {i : Instruction} (hgood : ∀ x ∈ i.floats, Recovers x) (hwide : i.IsWide)
    (hdepth : i.toJson.depth ≤ n) : Instruction.decode n i.toJson = some i := by
  cases i with
  | action name args =>
    obtain ⟨k, rfl, hk⟩ := depth_tagged_record_le_iff.1 hdepth
    have hname := faithful_text.complete trivial (hk ("name", ofText name) (by simp))
    have hargs := faithful_value.list.complete (List.forall_mem_flatMap.1 hgood)
      (hk ("args", .array (args.map Value.toJson)) (by simp))
    rw [Instruction.toJson, decode_record (by decide)]
    simp [decodeWith, Fields.required, Fields.get?, hname, hargs]
  | condition test ifTrue ifFalse =>
    obtain ⟨k, rfl, hk⟩ := depth_tagged_record_le_iff.1 hdepth
    have htest := faithful_expr.complete hgood (hk ("condition", test.toJson) (by simp))
    have htrue := faithful_nat64.complete (hwide ifTrue (by simp [destinations]))
      (hk ("true_destination", .ofInt ifTrue) (by simp))
    have hfalse := faithful_nat64.complete (hwide ifFalse (by simp [destinations]))
      (hk ("false_destination", .ofInt ifFalse) (by simp))
    rw [Instruction.toJson, decode_record (by decide)]
    simp [decodeWith, Fields.required, Fields.get?, htest, htrue, hfalse]
  | jump destination =>
    obtain ⟨k, rfl, hk⟩ := depth_tagged_record_le_iff.1 hdepth
    have hword := faithful_nat64.complete (hwide destination (by simp [destinations]))
      (hk ("destination", .ofInt destination) (by simp))
    rw [Instruction.toJson, decode_record (by decide)]
    simp [decodeWith, Fields.required, Fields.get?, hword]
  | blockEntry head =>
    obtain ⟨k, rfl, hk⟩ := depth_tagged_record_le_iff.1 hdepth
    have hword := faithful_nat64.complete (hwide head (by simp [destinations]))
      (hk ("block_head", .ofInt head) (by simp))
    rw [Instruction.toJson, decode_record (by decide)]
    simp [decodeWith, Fields.required, Fields.get?, hword]
  | bind name =>
    obtain ⟨k, rfl, hk⟩ := depth_tagged_record_le_iff.1 hdepth
    have hname := faithful_text.complete trivial (hk ("bound_name", ofText name) (by simp))
    rw [Instruction.toJson, decode_record (by decide)]
    simp [decodeWith, Fields.required, Fields.get?, hname]
  | unbind name =>
    obtain ⟨k, rfl, hk⟩ := depth_tagged_record_le_iff.1 hdepth
    have hname : Decode.optional Decode.text k (orNull ofText name) = some name :=
      optional_orNull (by simp [ofText]) fun s _ => faithful_text.complete trivial (by simp)
    rw [Instruction.toJson, decode_record (by decide)]
    simp [decodeWith, Fields.optional, Fields.get?, hname]
  | yield value =>
    obtain ⟨k, rfl, hk⟩ := depth_tagged_record_le_iff.1 hdepth
    have hvalue : Decode.optional Expr.decode k (orNull Expr.toJson value) = some value :=
      optional_orNull Expr.toJson_ne_null fun e he => faithful_expr.complete
        (List.forall_mem_flatMap.1 hgood e (Option.mem_toList.2 he))
        (depth_orNull_le_iff.1 (hk ("expr", orNull Expr.toJson value) (by simp)) e he)
    rw [Instruction.toJson, decode_record (by decide)]
    simp [decodeWith, Fields.optional, Fields.get?, hvalue]
  | compute e =>
    obtain ⟨k, rfl, hk⟩ := depth_tagged_record_le_iff.1 hdepth
    have he := faithful_expr.complete hgood (hk ("expr", e.toJson) (by simp))
    rw [Instruction.toJson, decode_record (by decide)]
    simp [decodeWith, Fields.required, Fields.get?, he]
  | blockEnd => cases n <;> rfl
  | ret => cases n <;> rfl
  | stop => cases n <;> rfl

theorem faithful_instruction :
    Faithful Instruction.decode Instruction.toJson (fun i => (∀ x ∈ i.floats, Recovers x) ∧ i.IsWide)
      (fun i => (∀ x ∈ i.floats, x.isFinite = true) ∧ i.IsWide) :=
  ⟨fun h => Instruction.complete_decode h.1 h.2, Instruction.sound_decode⟩

/-! ## Programs -/

/-- Names in ascending order are put behind the ones that are there. -/
theorem NameSet.insertName_of_forall_lt {name : String} {as : List String} (h : ∀ a ∈ as, a < name) :
    insertName name as = as ++ [name] := by
  induction as with
  | nil => rfl
  | cons a as ih =>
    have ha := h a (by simp)
    have hne : name ≠ a := fun heq => String.lt_irrefl a (heq ▸ ha)
    rw [insertName, if_neg (String.lt_asymm ha), if_neg hne, ih fun b hb => h b (by simp [hb])]
    rfl

theorem NameSet.toList_insertAll {s : NameSet} {names : List String} (h : (s.toList ++ names).Pairwise (· < ·)) :
    (s.insertAll names).toList = s.toList ++ names := by
  induction names generalizing s with
  | nil => simp [insertAll]
  | cons name names ih =>
    have hlt : ∀ a ∈ s.toList, a < name := fun a ha => (List.pairwise_append.1 h).2.2 a ha name (by simp)
    have hinsert : (s.insert name).toList = s.toList ++ [name] := insertName_of_forall_lt hlt
    have hrest := ih (s := s.insert name) (by rw [hinsert]; simpa using h)
    rw [hinsert, List.append_assoc] at hrest
    exact hrest

theorem NameSet.ofList_toList (s : NameSet) : ofList s.toList = s := by
  have h : (ofList s.toList).toList = s.toList := toList_insertAll (s := empty) s.ascending
  cases s
  cases hs : ofList _
  simp_all

def Program.floats (p : Program) : List Float := p.code.flatMap Instruction.floats

def Program.destinations (p : Program) : List Nat := p.code.flatMap Instruction.destinations

theorem Program.sound_decode {n : Nat} {j : Json} {p : Program} (h : Program.decode n j = some p) :
    ((∀ x ∈ p.floats, x.isFinite = true) ∧ ∀ d ∈ p.destinations, d < UInt64.size) ∧ p.toJson.depth ≤ n := by
  obtain ⟨r, hr, hp⟩ := Option.bind_eq_some_iff.1 h
  obtain rfl := depth_of_fields? hr
  split at hp
  · rename_i hcode hfile hinputs
    cases hp
    obtain ⟨hkind, hdepth⟩ := faithful_instruction.list.required hcode
    have hfinite := List.forall_mem_flatMap.2 fun i hi => (hkind i hi).1
    have hwide := List.forall_mem_flatMap.2 fun i hi => (hkind i hi).2
    refine ⟨⟨hfinite, hwide⟩, depth_record_le_iff.2 ⟨r.depth, rfl, ?_⟩⟩
    -- the list of instructions opens a level, and the list of names needs no more
    obtain ⟨m, hm, -⟩ := depth_array_le_iff.1 hdepth
    have hnames (names : List String) : (Json.array (names.map ofText)).depth ≤ r.depth :=
      depth_array_le_iff.2 ⟨m, hm, by simp⟩
    simp [hdepth, hnames]
  · cases hp

theorem Program.complete_decode {n : Nat} {p : Program} (hgood : ∀ x ∈ p.floats, Recovers x)
    (hwide : ∀ d ∈ p.destinations, d < UInt64.size) (hdepth : p.toJson.depth ≤ n) :
    Program.decode n p.toJson = some p := by
  obtain ⟨k, rfl, hk⟩ := depth_record_le_iff.1 hdepth
  have hcode := faithful_instruction.list.complete
    (fun i hi => ⟨List.forall_mem_flatMap.1 hgood i hi, List.forall_mem_flatMap.1 hwide i hi⟩)
    (hk ("nodes", .array (p.code.map Instruction.toJson)) (by simp))
  have hfile := faithful_text.complete trivial (hk ("file", ofText p.file) (by simp))
  have hinputs := faithful_text.list.complete (fun _ _ => trivial)
    (hk ("inputs", .array (p.inputs.toList.map ofText)) (by simp))
  simp [Program.decode, Program.toJson, Fields.required, Fields.withDefault, Fields.get?, hcode, hfile, hinputs,
    NameSet.ofList_toList]

/-! ## The text of a program -/

theorem isProper_record {fields : List (String × Json)} (h : ∀ f ∈ fields, f.2.IsProper) : (record fields).IsProper :=
  .object (List.forall_mem_map.2 fun _ _ => rfl) (List.forall_mem_map.2 h)

theorem isProper_tagged {name : String} {j : Json} (h : j.IsProper) : (tagged name j).IsProper :=
  isProper_record (by simpa using h)

theorem isProper_ofInt (n : Int) : (ofInt n).IsProper := .number (Decimal.isProper_ofNat _ _)

theorem isProper_orNull {α : Type} {enc : α → Json} (h : ∀ a, (enc a).IsProper) (o : Option α) :
    (orNull enc o).IsProper := by
  cases o with
  | none => exact .null
  | some a => exact h a

theorem Value.isProper_toJson (v : Value) : v.toJson.IsProper := by
  cases v with
  | int n => exact isProper_tagged (isProper_ofInt _)
  | float x =>
    refine isProper_tagged ?_
    unfold ofFloat
    split
    · exact .number (Decimal.isProper_ofFloat _ x)
    · exact .null
  | text s => exact isProper_tagged (.text s)
  | bool b => exact isProper_tagged (.bool b)

theorem Expr.isProper_toJson (e : Expr) : e.toJson.IsProper := by
  induction e with
  | literal v => exact isProper_tagged v.isProper_toJson
  | var name => exact isProper_tagged (.text name)
  | assign name value ih => exact isProper_tagged (isProper_record (by simp [ih, IsProper.text]))
  | binary op left right ihl ihr => exact isProper_tagged (isProper_record (by simp [ihl, ihr, IsProper.text]))
  | not e ih => exact isProper_tagged ih
  | neg e ih => exact isProper_tagged ih

theorem Instruction.isProper_toJson (i : Instruction) : i.toJson.IsProper := by
  cases i with
  | action name args =>
    have hargs : (Json.array (args.map Value.toJson)).IsProper :=
      .array (List.forall_mem_map.2 fun v _ => v.isProper_toJson)
    exact isProper_tagged (isProper_record (by simp [hargs, IsProper.text]))
  | condition test ifTrue ifFalse =>
    exact isProper_tagged (isProper_record (by simp [test.isProper_toJson, isProper_ofInt]))
  | jump destination => exact isProper_tagged (isProper_record (by simp [isProper_ofInt]))
  | blockEntry head => exact isProper_tagged (isProper_record (by simp [isProper_ofInt]))
  | bind name => exact isProper_tagged (isProper_record (by simp [IsProper.text]))
  | unbind name => exact isProper_tagged (isProper_record (by simp [isProper_orNull IsProper.text]))
  | yield value => exact isProper_tagged (isProper_record (by simp [isProper_orNull Expr.isProper_toJson]))
  | compute e => exact isProper_tagged (isProper_record (by simp [e.isProper_toJson]))
  | blockEnd => exact .text _
  | ret => exact .text _
  | stop => exact .text _

theorem Program.parse?_save (p : Program) : parse? p.save = some p.toJson := by
  have hcode : (Json.array (p.code.map Instruction.toJson)).IsProper :=
    .array (List.forall_mem_map.2 fun i _ => i.isProper_toJson)
  have hinputs : (Json.array (p.inputs.toList.map ofText)).IsProper :=
    .array (List.forall_mem_map.2 fun s _ => .text s)
  exact parse?_pretty (isProper_record (by simp [hcode, hinputs, IsProper.text]))

/-- The floats of the program are finite, its positions are words of 64 bits, and its text opens no more levels than
may be read. -/
structure Program.IsSavable (p : Program) : Prop where
  finite : ∀ x ∈ p.floats, x.isFinite = true
  wide : ∀ d ∈ p.destinations, d < UInt64.size
  shallow : p.toJson.depth ≤ 127

theorem Program.isSavable_of_load? {text : String} {p : Program} (h : Program.load? text = some p) : p.IsSavable := by
  obtain ⟨j, -, hj⟩ := Option.bind_eq_some_iff.1 h
  obtain ⟨⟨hfinite, hwide⟩, hdepth⟩ := Program.sound_decode hj
  exact ⟨hfinite, hwide, hdepth⟩

theorem Program.load?_save_of_isSavable {p : Program} (hread : ∀ x ∈ p.floats, x.isFinite = true → ReadsBack x)
    (h : p.IsSavable) : Program.load? p.save = some p := by
  unfold Program.load?
  rw [Program.parse?_save]
  exact Program.complete_decode (fun x hx => ⟨h.finite x hx, hread x hx (h.finite x hx)⟩) h.wide h.shallow

/-- **Loading undoes saving exactly where it can.**  The text of a program spells its value.  What is loaded, from
any text, can be saved.  Where the finite floats of a program read back, it is loaded as it was saved exactly if it
can be saved; so what was loaded is loaded again from its own text. -/
theorem load?_save_iff (p : Program) :
    parse? p.save = some p.toJson ∧
      (∀ text, Program.load? text = some p → p.IsSavable) ∧
      ((∀ x ∈ p.floats, x.isFinite = true → ReadsBack x) →
        (Program.load? p.save = some p ↔ p.IsSavable) ∧
          ∀ text, Program.load? text = some p → Program.load? p.save = some p) := by
  refine ⟨p.parse?_save, fun text h => Program.isSavable_of_load? h, fun hread => ⟨?_, fun text h => ?_⟩⟩
  · exact ⟨Program.isSavable_of_load?, Program.load?_save_of_isSavable hread⟩
  · exact Program.load?_save_of_isSavable hread (Program.isSavable_of_load? h)

/-- A program with floats, escapes, positions and fields that are null. -/
def sale : Program where
  code := [.action "say" [.text "\"tea\"\n", .float 2.5, .int (-3), .bool true],
    .condition (.binary .lt (.var "price") (.neg (.literal (.float 0.1)))) 2 3, .unbind none, .yield none]
  file := "sale"
  inputs := .ofList ["price", "guest"]

theorem load?_save_sale :
    (∀ x ∈ sale.floats, x.isFinite = true → ReadsBack x) ∧ sale.IsSavable ∧ Program.load? sale.save = some sale := by
  have hfloats : sale.floats = [2.5, 0.1] := rfl
  have hread : ∀ x ∈ sale.floats, x.isFinite = true → ReadsBack x := by
    have hdigits₁ : Decimal.Numeral.ofFloat floatStyle 2.5 = ⟨false, ['2'], ['5'], none⟩ := by decide +kernel
    have hdigits₂ : Decimal.Numeral.ofFloat floatStyle 0.1 = ⟨false, ['0'], ['1'], none⟩ := by decide +kernel
    simp only [hfloats, List.forall_mem_cons, List.not_mem_nil, false_implies, implies_true, and_true, ReadsBack,
      hdigits₁, hdigits₂, Decimal.Numeral.toFloat?]
    constructor <;> intro _ <;> rw [if_neg (by decide), Decimal.scaleDown, if_pos (by decide)] <;> decide +kernel
  have hsavable : sale.IsSavable :=
    ⟨by rw [hfloats]; decide +kernel, by decide, by decide⟩
  exact ⟨hread, hsavable, (((load?_save_iff sale).2.2 hread).1).2 hsavable⟩

/-- A record may be an array, and a bare choice an object. -/
example : Program.load? "[[\x7b\"Stop\":null\x7d],\"sale\"]" = some ⟨[.stop], "sale", .empty⟩ := by cbv

end SceneScript
