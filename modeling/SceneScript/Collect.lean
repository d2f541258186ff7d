/-!
# Collecting results

`collect f xs` is the list of results of `f` on `xs` if there is no error, and otherwise the first
error.
-/

namespace SceneScript

/-- The results of `f` on all of `xs`, or the first error. -/
def collect {α β ε : Type} (f : α → Except ε β) : List α → Except ε (List β)
  | [] => .ok []
  | x :: xs =>
    match f x with
    | .error e => .error e
    | .ok y =>
      match collect f xs with
      | .error e => .error e
      | .ok ys => .ok (y :: ys)

end SceneScript
