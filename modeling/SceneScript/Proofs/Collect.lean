import SceneScript.Collect

/-!
# Collected results

A collection depends on the list of single results only, so most facts are stated on
`collect id`, the first error of a list of results or else all of them.
-/

namespace SceneScript

variable {α β γ ε : Type}

theorem map_eq_ok_iff {f : α → β} {x : Except ε α} {b : β} :
    x.map f = .ok b ↔ ∃ a, x = .ok a ∧ f a = b := by
  cases x <;> simp [Except.map]

theorem bind_eq_ok_iff {f : α → Except ε β} {x : Except ε α} {b : β} :
    x.bind f = .ok b ↔ ∃ a, x = .ok a ∧ f a = .ok b := by
  cases x <;> simp [Except.bind]

theorem map_eq_error_iff {f : α → β} {x : Except ε α} {e : ε} : x.map f = .error e ↔ x = .error e := by
  cases x <;> simp [Except.map]

theorem map_map_eq (f : α → β) (g : β → γ) (x : Except ε α) : (x.map f).map g = x.map fun a => g (f a) := by
  cases x <;> rfl

theorem map_congr_of_ok {f g : α → β} {x : Except ε α} (h : ∀ a, x = .ok a → f a = g a) : x.map f = x.map g := by
  cases x with
  | error e => rfl
  | ok a => exact congrArg Except.ok (h a rfl)

theorem collect_eq_collect_map (f : α → Except ε β) (xs : List α) :
    collect f xs = collect id (xs.map f) := by
  induction xs with
  | nil => rfl
  | cons x xs ih => simp only [List.map_cons, collect, ih, id]

theorem collect_congr {f g : α → Except ε β} {xs : List α} (h : ∀ x ∈ xs, f x = g x) : collect f xs = collect g xs := by
  rw [collect_eq_collect_map f, collect_eq_collect_map g, List.map_congr_left h]

theorem collect_eq_ok_iff (f : α → Except ε β) (xs : List α) (ys : List β) :
    collect f xs = .ok ys ↔ xs.map f = ys.map .ok := by
  induction xs generalizing ys with
  | nil => cases ys <;> simp [collect]
  | cons x xs ih =>
    rw [collect]
    cases hx : f x with
    | error e => cases ys <;> simp [hx]
    | ok y =>
      cases hxs : collect f xs with
      | error e =>
        cases ys with
        | nil => simp
        | cons y' ys =>
          have : ¬xs.map f = ys.map .ok := by
            rw [← ih, hxs]
            simp
          simp [this]
      | ok ys' =>
        have := (ih ys').1 hxs
        cases ys with
        | nil => simp
        | cons y' ys =>
          simp only [Except.ok.injEq, List.cons.injEq, List.map_cons, hx, this]
          rw [List.map_inj_right fun _ _ h => Except.ok.inj h]

/-- What each single result keeps, the collection keeps. -/
theorem map_eq_of_collect {f : α → Except ε β} {g : α → γ} {h : β → γ} (hkeep : ∀ x y, f x = .ok y → h y = g x)
    {xs : List α} {ys : List β} (hc : collect f xs = .ok ys) : ys.map h = xs.map g := by
  rw [collect_eq_ok_iff] at hc
  induction xs generalizing ys with
  | nil => simp_all
  | cons x xs ih =>
    obtain ⟨y, ys, rfl, hy, hys⟩ := List.map_eq_cons_iff.1 hc.symm
    rw [List.map_cons, List.map_cons, hkeep x y hy.symm, ih hys.symm]

theorem collect_append (xs ys : List (Except ε β)) :
    collect id (xs ++ ys) =
      match collect id xs with
      | .error e => .error e
      | .ok as => (collect id ys).map (as ++ ·) := by
  induction xs with
  | nil => cases h : collect id ys <;> simp [collect, h, Except.map]
  | cons x xs ih =>
    rw [List.cons_append, collect, collect, ih]
    cases x with
    | error e => rfl
    | ok a =>
      cases collect id xs with
      | error e => rfl
      | ok as => cases collect id ys <;> simp [Except.map]

/-- The error of a result, if it is one. -/
def errorOf : Except ε β → Option ε
  | .error e => some e
  | .ok _ => none

/-- A collection fails with the first error. -/
theorem collect_eq_error_iff (xs : List (Except ε β)) (e : ε) :
    collect id xs = .error e ↔ xs.findSome? errorOf = some e := by
  induction xs with
  | nil => simp [collect]
  | cons x xs ih =>
    rw [collect, List.findSome?_cons]
    cases x with
    | error e' => simp [errorOf]
    | ok a =>
      rw [errorOf, ← ih]
      cases collect id xs <;> simp

theorem exists_of_collect_eq_error {f : α → Except ε β} {xs : List α} {e : ε} (h : collect f xs = .error e) :
    ∃ x ∈ xs, f x = .error e := by
  rw [collect_eq_collect_map, collect_eq_error_iff] at h
  obtain ⟨y, hy, herror⟩ := List.exists_of_findSome?_eq_some h
  obtain ⟨x, hx, rfl⟩ := List.mem_map.1 hy
  refine ⟨x, hx, ?_⟩
  cases hfx : f x with
  | error e' =>
    rw [hfx] at herror
    rw [Option.some.inj herror]
  | ok b =>
    rw [hfx] at herror
    cases herror

/-- Collecting lists of results and joining them is collecting the joined results. -/
theorem collect_flatten (f : α → List (Except ε β)) (xs : List α) :
    (collect (fun x => collect id (f x)) xs).map List.flatten = collect id (xs.flatMap f) := by
  induction xs with
  | nil => rfl
  | cons x xs ih =>
    rw [List.flatMap_cons, collect_append, collect, ← ih]
    cases collect id (f x) with
    | error e => rfl
    | ok as => cases collect (fun x => collect id (f x)) xs <;> rfl

end SceneScript
