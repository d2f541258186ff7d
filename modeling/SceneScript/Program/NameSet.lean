/-!
# Sets of names

A set of names is its ascending list, by code points, so that equal sets are equal.
-/

namespace SceneScript

/-- A finite set of names. -/
structure NameSet where
  toList : List String
  ascending : toList.Pairwise (· < ·)
deriving DecidableEq

namespace NameSet

/-- `name` put in its place in an ascending list. -/
def insertName (name : String) : List String → List String
  | [] => [name]
  | a :: as =>
    if name < a then name :: a :: as else if name = a then a :: as else a :: insertName name as

theorem mem_insertName (x name : String) (as : List String) :
    x ∈ insertName name as ↔ x = name ∨ x ∈ as := by
  induction as with
  | nil => simp [insertName]
  | cons a as ih =>
    rw [insertName]
    split
    · simp
    · split
      · next h => simp [h]
      · simp [ih, or_left_comm]

theorem pairwise_insertName (name : String) (as : List String) (h : as.Pairwise (· < ·)) :
    (insertName name as).Pairwise (· < ·) := by
  induction as with
  | nil => simp [insertName]
  | cons a as ih =>
    obtain ⟨ha, has⟩ := List.pairwise_cons.1 h
    rw [insertName]
    split
    · next hlt =>
      refine List.pairwise_cons.2 ⟨fun b hb => ?_, h⟩
      rcases List.mem_cons.1 hb with rfl | hb
      · exact hlt
      · exact String.lt_trans hlt (ha b hb)
    · next hlt =>
      split
      · exact h
      · next hne =>
        refine List.pairwise_cons.2 ⟨fun b hb => ?_, ih has⟩
        rcases (mem_insertName b name as).1 hb with rfl | hb
        · exact String.not_le.1 fun hle => hne (String.le_antisymm hle (String.not_lt.1 hlt))
        · exact ha b hb

def empty : NameSet := ⟨[], .nil⟩

def insert (s : NameSet) (name : String) : NameSet :=
  ⟨insertName name s.toList, pairwise_insertName name s.toList s.ascending⟩

/-- The set with all of `names` added. -/
def insertAll (s : NameSet) (names : List String) : NameSet := names.foldl insert s

def ofList (names : List String) : NameSet := empty.insertAll names

end NameSet

end SceneScript
