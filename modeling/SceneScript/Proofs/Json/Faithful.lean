import SceneScript.Json.Decode
import SceneScript.Proofs.Decimal.Finite
import SceneScript.Proofs.Expr.Lexeme
import SceneScript.Proofs.Json.RoundTrip

/-!
# Faithful decoders

A decoder is faithful to a way of writing if it reads back what is written within the levels that it may open, and if
all that it reads could have been written within those levels.

    dec depth (enc a) = some a,  if (enc a).depth ≤ depth            (Faithful.complete)
    dec depth j = some a → (enc a).depth ≤ depth                     (Faithful.sound)
-/

namespace SceneScript.Json

/-! ## Depth -/

mutual

/-- How deep arrays and objects nest in a value. -/
def depth : Json → Nat
  | .array items => depthOfItems items + 1
  | .object fields => depthOfFields fields + 1
  | _ => 0

def depthOfItems : List Json → Nat
  | [] => 0
  | x :: xs => max x.depth (depthOfItems xs)

def depthOfFields : List (Option String × Json) → Nat
  | [] => 0
  | (_, v) :: fields => max v.depth (depthOfFields fields)

end

theorem depthOfItems_le_iff {items : List Json} {n : Nat} : depthOfItems items ≤ n ↔ ∀ x ∈ items, x.depth ≤ n := by
  induction items with
  | nil => simp [depthOfItems]
  | cons x items ih => rw [depthOfItems, Nat.max_le, ih, List.forall_mem_cons]

theorem depthOfFields_le_iff {fields : List (Option String × Json)} {n : Nat} :
    depthOfFields fields ≤ n ↔ ∀ f ∈ fields, f.2.depth ≤ n := by
  induction fields with
  | nil => simp [depthOfFields]
  | cons f fields ih => rw [depthOfFields, Nat.max_le, ih, List.forall_mem_cons]

theorem depth_array_le_iff {items : List Json} {n : Nat} :
    (Json.array items).depth ≤ n ↔ ∃ m, n = m + 1 ∧ ∀ x ∈ items, x.depth ≤ m := by
  rw [depth]
  cases n with
  | zero => simp
  | succ n => simp [depthOfItems_le_iff]

theorem depth_record_le_iff {fields : List (String × Json)} {n : Nat} :
    (record fields).depth ≤ n ↔ ∃ m, n = m + 1 ∧ ∀ f ∈ fields, f.2.depth ≤ m := by
  rw [record, depth]
  cases n with
  | zero => simp
  | succ n => simp only [Nat.add_le_add_iff_right, depthOfFields_le_iff, List.forall_mem_map, Nat.add_right_cancel_iff,
      exists_eq_left']

/-- `dec` reads back what `enc` writes of good data, and reads nothing but data of a kind that is written within the
levels it may open. -/
structure Faithful {α : Type} (dec : Decoder α) (enc : α → Json) (good kind : α → Prop) : Prop where
  complete : ∀ {depth a}, good a → (enc a).depth ≤ depth → dec depth (enc a) = some a
  sound : ∀ {depth j a}, dec depth j = some a → kind a ∧ (enc a).depth ≤ depth

/-! ## Scalars -/

theorem faithful_text : Faithful Decode.text ofText (fun _ => True) (fun _ => True) where
  complete _ _ := rfl
  sound _ := ⟨trivial, Nat.zero_le _⟩

theorem faithful_bool : Faithful Decode.bool .bool (fun _ => True) (fun _ => True) where
  complete _ _ := rfl
  sound _ := ⟨trivial, Nat.zero_le _⟩

theorem toInt?_ofInt (n : Int) :
    (⟨decide (n < 0), Decimal.natText n.natAbs, [], none⟩ : Decimal.Numeral).toInt? = some n := by
  simp only [Decimal.Numeral.toInt?, Decimal.ofDigits_natText, List.isEmpty_nil, Option.isNone_none, Bool.and_self, if_true,
    decide_eq_true_eq]
  split
  · rw [if_neg (by omega)]
    exact congrArg some (by omega)
  · exact congrArg some (by omega)

theorem faithful_int64 : Faithful Decode.int64 (fun n => ofInt n.toInt) (fun _ => True) (fun _ => True) where
  complete {depth n} _ _ := by
    show (Decimal.Numeral.toInt? _).bind Decimal.toInt64? = some n
    rw [toInt?_ofInt]
    exact Decimal.toInt64?_eq_some_iff.2 rfl
  sound _ := ⟨trivial, Nat.zero_le _⟩

theorem faithful_nat64 :
    Faithful Decode.nat64 (fun n : Nat => ofInt n) (fun n => n < UInt64.size) (fun n => n < UInt64.size) where
  complete {depth n} hn _ := by
    simp only [ofInt, Decode.nat64, toInt?_ofInt]
    rw [if_pos ⟨Int.natCast_nonneg n, by rwa [Int.toNat_natCast]⟩, Int.toNat_natCast]
  sound {depth j n} h := by
    refine ⟨?_, Nat.zero_le _⟩
    cases j with
    | number m =>
      simp only [Decode.nat64] at h
      split at h
      · split at h
        · rename_i hk
          cases h
          exact hk.2
        · cases h
      · cases h
    | _ => cases h

/-- The text of the value reads back as the value. -/
def ReadsBack (x : Float) : Prop := (Decimal.Numeral.ofFloat floatStyle x).toFloat? = some x

theorem faithful_float :
    Faithful Decode.float ofFloat (fun x => x.isFinite = true ∧ ReadsBack x) (fun x => x.isFinite = true) where
  complete {depth x} hx _ := by
    simp only [ofFloat, hx.1, if_true]
    exact hx.2
  sound {depth j x} h := by
    have hfinite : x.isFinite = true := by
      cases j with
      | number m => exact Decimal.isFinite_of_toFloat? h
      | _ => cases h
    refine ⟨hfinite, ?_⟩
    simp only [ofFloat, hfinite, if_true]
    exact Nat.zero_le _

/-! ## Lists -/

theorem decodeAll_map {α : Type} {f : Json → Option α} {enc : α → Json} {as : List α}
    (h : ∀ a ∈ as, f (enc a) = some a) : decodeAll f (as.map enc) = some as := by
  induction as with
  | nil => rfl
  | cons a as ih =>
    rw [List.map_cons, decodeAll, h a (by simp), ih fun b hb => h b (by simp [hb])]

theorem exists_of_decodeAll {α : Type} {f : Json → Option α} {xs : List Json} {as : List α}
    (h : decodeAll f xs = some as) {a : α} (ha : a ∈ as) : ∃ x, f x = some a := by
  fun_induction decodeAll f xs generalizing as with
  | case1 =>
    cases h
    cases ha
  | case2 x xs b bs hbs hb ih =>
    cases h
    rcases List.mem_cons.1 ha with rfl | ha
    · exact ⟨x, hb⟩
    · exact ih hbs ha
  | case3 => cases h

theorem Faithful.list {α : Type} {dec : Decoder α} {enc : α → Json} {good kind : α → Prop}
    (h : Faithful dec enc good kind) : Faithful (Decode.list dec) (fun as => .array (as.map enc))
      (fun as => ∀ a ∈ as, good a) (fun as => ∀ a ∈ as, kind a) where
  complete {depth as} hgood hdepth := by
    obtain ⟨m, rfl, hm⟩ := depth_array_le_iff.1 hdepth
    exact decodeAll_map fun a ha => h.complete (hgood a ha) (hm _ (List.mem_map_of_mem ha))
  sound {depth j as} hdec := by
    cases j with
    | array xs =>
      cases depth with
      | zero => cases hdec
      | succ depth =>
        have hall : ∀ a ∈ as, kind a ∧ (enc a).depth ≤ depth := fun a ha =>
          have ⟨_, hx⟩ := exists_of_decodeAll hdec ha
          h.sound hx
        refine ⟨fun a ha => (hall a ha).1, depth_array_le_iff.2 ⟨depth, rfl, ?_⟩⟩
        exact List.forall_mem_map.2 fun a ha => (hall a ha).2
    | _ => cases depth <;> cases hdec

/-! ## Records and choices -/

theorem depth_of_fields? {names : List String} {depth : Nat} {j : Json} {r : Fields}
    (h : fields? names depth j = some r) : depth = r.depth + 1 := by
  unfold fields? at h
  split at h
  · split at h
    · cases h
      rfl
    · cases h
  · split at h
    · split at h
      · cases h
        rfl
      · cases h
    · cases h
  · cases h

theorem filter_fst_eq {fields : List (String × Json)} (hnodup : (fields.map Prod.fst).Nodup) {f : String × Json}
    (hf : f ∈ fields) : fields.filter (fun p => p.1 = f.1) = [f] := by
  induction fields with
  | nil => cases hf
  | cons g fields ih =>
    obtain ⟨hg, hrest⟩ := List.nodup_cons.1 hnodup
    rcases List.mem_cons.1 hf with rfl | hf
    · have hnone : fields.filter (fun p => p.1 = f.1) = [] := by
        rw [List.filter_eq_nil_iff]
        intro p hp heq
        exact hg (of_decide_eq_true heq ▸ List.mem_map_of_mem hp)
      rw [List.filter_cons_of_pos (by simp), hnone]
    · have hne : g.1 ≠ f.1 := fun heq => hg (heq ▸ List.mem_map_of_mem hf)
      rw [List.filter_cons_of_neg (by simpa using hne), ih hrest hf]

theorem field?_record {fields : List (String × Json)} (hnodup : (fields.map Prod.fst).Nodup) {f : String × Json}
    (hf : f ∈ fields) : field? f.1 (fields.map fun p => (some p.1, p.2)) = some (some f.2) := by
  have hfilter : (fields.map fun p => (some p.1, p.2)).filter (fun p => p.1 = some f.1) = [(some f.1, f.2)] := by
    have hone := congrArg (List.map fun p : String × Json => (some p.1, p.2)) (filter_fst_eq hnodup hf)
    rw [List.filter_map]
    simpa [Function.comp_def] using hone
  unfold field?
  rw [hfilter]

theorem mapM_map_of_forall {fields : List (String × Json)} {get : String → Option (Option Json)}
    (h : ∀ f ∈ fields, get f.1 = some (some f.2)) :
    (fields.map Prod.fst).mapM get = some (fields.map fun f => some f.2) := by
  induction fields with
  | nil => rfl
  | cons f fields ih =>
    rw [List.map_cons, List.mapM_cons, h f (by simp), ih fun g hg => h g (by simp [hg])]
    rfl

/-- A record with distinct names is read field by field. -/
@[simp] theorem fields?_record {names : List String} {fields : List (String × Json)}
    (hnames : fields.map Prod.fst = names) (hnodup : names.Nodup) (depth : Nat) :
    fields? names (depth + 1) (record fields) = some ⟨depth, true, fields.map fun f => some f.2⟩ := by
  subst hnames
  have hkeys : ((fields.map fun p => (some p.1, p.2)).all fun p => p.1.isSome) = true := by simp
  rw [record, fields?, if_pos hkeys, mapM_map_of_forall fun f hf => field?_record hnodup hf]

theorem exists_of_payload? {α : Type} {dec : Decoder α} {c : Choice} {depth : Nat} {j : Json} {a : α}
    (hc : choice? depth j = some c) (h : c.payload? dec = some a) : ∃ m k, depth = m + 1 ∧ dec m k = some a := by
  unfold choice? at hc
  split at hc
  · cases hc
    cases h
  · cases hc
    exact ⟨_, _, rfl, h⟩
  · cases hc

theorem choice?_ofText (depth : Nat) (name : String) : choice? depth (ofText name) = some ⟨name, none⟩ := by
  cases depth <;> rfl

section
variable {α : Type} {dec : Decoder α} {enc : α → Json} {good kind : α → Prop} (hdec : Faithful dec enc good kind)
  {r : Fields} {i : Nat} {a : α}
include hdec

theorem Faithful.required (h : r.required i dec = some a) : kind a ∧ (enc a).depth ≤ r.depth := by
  obtain ⟨j, -, hj⟩ := Option.bind_eq_some_iff.1 h
  exact hdec.sound hj

theorem Faithful.withDefault {default : α} (h : r.withDefault i default dec = some a) :
    a = default ∨ kind a ∧ (enc a).depth ≤ r.depth := by
  unfold Fields.withDefault at h
  split at h
  · exact .inr (hdec.sound h)
  · exact .inl (Option.some.inj h).symm

theorem Faithful.optional {o : Option α} (h : r.optional i dec = some o) :
    ∀ a ∈ o, kind a ∧ (enc a).depth ≤ r.depth := by
  unfold Fields.optional Decode.optional at h
  rintro a rfl
  split at h
  · split at h
    · cases h
    · obtain ⟨b, hb, hba⟩ := Option.map_eq_some_iff.1 h
      cases hba
      exact hdec.sound hb
  · split at h <;> cases h

theorem Faithful.payload? {c : Choice} {depth : Nat} {j : Json} (hc : choice? depth j = some c)
    (h : c.payload? dec = some a) : ∃ m, depth = m + 1 ∧ kind a ∧ (enc a).depth ≤ m := by
  obtain ⟨m, k, rfl, hk⟩ := exists_of_payload? hc h
  exact ⟨m, rfl, hdec.sound hk⟩

end

end SceneScript.Json
