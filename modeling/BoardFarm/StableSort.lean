/-!
# Stable sorting

Insertion sort by a strict comparison. Elements that neither precede nor follow one another
keep their order.

* `perm_stableSort`: the result has the elements of the list.
-/

namespace BoardFarm

variable {α : Type}

/-- Puts an element in front of the first element that it does not follow. -/
def stableInsert (before : α → α → Bool) (a : α) : List α → List α
  | [] => [a]
  | b :: rest => if before b a then b :: stableInsert before a rest else a :: b :: rest

/-- The elements of a list in the order of a strict comparison. -/
def stableSort (before : α → α → Bool) (l : List α) : List α :=
  l.foldr (stableInsert before) []

theorem perm_stableInsert (before : α → α → Bool) (a : α) (l : List α) :
    (stableInsert before a l).Perm (a :: l) := by
  induction l with
  | nil => exact List.Perm.refl _
  | cons b rest ih =>
    simp only [stableInsert]
    split
    · exact (ih.cons b).trans (List.Perm.swap a b rest)
    · exact List.Perm.refl _

theorem perm_stableSort (before : α → α → Bool) (l : List α) : (stableSort before l).Perm l := by
  induction l with
  | nil => exact List.Perm.refl _
  | cons a rest ih => exact (perm_stableInsert before a _).trans (ih.cons a)

theorem mem_stableSort {before : α → α → Bool} {l : List α} {a : α} :
    a ∈ stableSort before l ↔ a ∈ l :=
  (perm_stableSort before l).mem_iff

end BoardFarm
