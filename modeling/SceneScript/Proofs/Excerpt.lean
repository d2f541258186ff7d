/-!
# Excerpts of lists

`StandsAt xs k ys`: the list `xs` stands in `ys` from the position `k` on.  Nodes stand in their block and the
code of a block stands in the whole code; what is said of a part is said relative to such a place.
-/

namespace SceneScript

variable {α β : Type}

/-- `xs` stands in `ys` from the position `k` on. -/
def StandsAt (xs : List α) (k : Nat) (ys : List α) : Prop :=
  ∃ pre post, ys = pre ++ (xs ++ post) ∧ pre.length = k

theorem StandsAt.refl (xs : List α) : StandsAt xs 0 xs := ⟨[], [], by simp, rfl⟩

theorem StandsAt.head {x : α} {xs ys : List α} {k : Nat} (h : StandsAt (x :: xs) k ys) :
    ys[k]? = some x := by
  obtain ⟨pre, post, rfl, rfl⟩ := h
  simp

theorem StandsAt.tail {x : α} {xs ys : List α} {k : Nat} (h : StandsAt (x :: xs) k ys) :
    StandsAt xs (k + 1) ys := by
  obtain ⟨pre, post, rfl, rfl⟩ := h
  exact ⟨pre ++ [x], post, by simp, by simp⟩

theorem StandsAt.left {xs zs ys : List α} {k : Nat} (h : StandsAt (xs ++ zs) k ys) :
    StandsAt xs k ys := by
  obtain ⟨pre, post, rfl, rfl⟩ := h
  exact ⟨pre, zs ++ post, by simp, rfl⟩

theorem StandsAt.right {xs zs ys : List α} {k : Nat} (h : StandsAt (xs ++ zs) k ys) :
    StandsAt zs (k + xs.length) ys := by
  obtain ⟨pre, post, rfl, rfl⟩ := h
  exact ⟨pre ++ xs, post, by simp, by simp⟩

theorem StandsAt.get {xs ys : List α} {k j : Nat} (h : StandsAt xs k ys) (hj : j < xs.length) :
    ys[k + j]? = xs[j]? := by
  obtain ⟨pre, post, rfl, rfl⟩ := h
  rw [List.getElem?_append_right (by omega), Nat.add_sub_cancel_left,
    List.getElem?_append_left hj]

theorem StandsAt.drop_eq {xs ys : List α} {k : Nat} (h : StandsAt xs k ys) : ∃ post, ys.drop k = xs ++ post := by
  obtain ⟨pre, post, rfl, rfl⟩ := h
  exact ⟨post, List.drop_left⟩

theorem StandsAt.length_le {xs ys : List α} {k : Nat} (h : StandsAt xs k ys) :
    k + xs.length ≤ ys.length := by
  obtain ⟨pre, post, rfl, rfl⟩ := h
  simp

end SceneScript
