import BoardFarm.SortedMap

/-!
# Finite sets with sorted members

A set is a map to the unit type, so it inherits the one representation of `SortedMap`.

* `SortedSet.mem_members_iff`: the listed members are those that `has` accepts.
* `SortedSet.has_add`, `SortedSet.has_remove`, `SortedSet.has_ofList`: what each operation
  does to membership.
-/

namespace BoardFarm

/-- A finite set, held as its members in strictly increasing order. -/
abbrev SortedSet (κ : Type) [LT κ] : Type := SortedMap κ Unit

namespace SortedSet

variable {κ : Type} [LT κ]

def has [DecidableEq κ] (s : SortedSet κ) (k : κ) : Bool := SortedMap.contains s k

/-- The set with `k` as a further member. -/
def add [DecidableLT κ] [KeyOrder κ] (s : SortedSet κ) (k : κ) : SortedSet κ :=
  SortedMap.insert s k ()

def remove [DecidableEq κ] (s : SortedSet κ) (k : κ) : SortedSet κ := SortedMap.erase s k

def members (s : SortedSet κ) : List κ := s.keys

/-- The set of the members of a list. -/
def ofList [DecidableLT κ] [KeyOrder κ] (l : List κ) : SortedSet κ :=
  l.foldl add SortedMap.empty

/-- Whether every member of `s` is a member of `t`. -/
def isSubset [DecidableEq κ] (s t : SortedSet κ) : Bool := s.members.all (has t)

theorem mem_members_iff [DecidableEq κ] [KeyOrder κ] {s : SortedSet κ} {k : κ} :
    k ∈ s.members ↔ s.has k = true :=
  SortedMap.mem_keys_iff

theorem has_add [DecidableEq κ] [DecidableLT κ] [KeyOrder κ] (s : SortedSet κ) (k k' : κ) :
    (s.add k).has k' = (decide (k = k') || s.has k') := by
  unfold has add SortedMap.contains
  rw [SortedMap.get?_insert]
  by_cases h : k = k' <;> simp [h]

theorem has_remove [DecidableEq κ] [KeyOrder κ] (s : SortedSet κ) (k k' : κ) :
    (s.remove k).has k' = (!decide (k = k') && s.has k') := by
  unfold has remove SortedMap.contains
  rw [SortedMap.get?_erase]
  by_cases h : k = k' <;> simp [h]

theorem has_foldl_add [DecidableEq κ] [DecidableLT κ] [KeyOrder κ] (l : List κ)
    (s : SortedSet κ) (k : κ) :
    (l.foldl add s).has k = (decide (k ∈ l) || s.has k) := by
  induction l generalizing s with
  | nil => simp
  | cons a rest ih =>
    rw [List.foldl_cons, ih, has_add]
    by_cases h : a = k
    · subst h
      simp
    · have h' : ¬ k = a := fun he => h he.symm
      simp [h, h']

theorem has_ofList [DecidableEq κ] [DecidableLT κ] [KeyOrder κ] (l : List κ) (k : κ) :
    (ofList l).has k = decide (k ∈ l) := by
  unfold ofList
  rw [has_foldl_add]
  simp [has, SortedMap.contains]

theorem isSubset_iff [DecidableEq κ] [KeyOrder κ] {s t : SortedSet κ} :
    s.isSubset t = true ↔ ∀ k, s.has k = true → t.has k = true := by
  simp only [isSubset, List.all_eq_true, mem_members_iff]

end SortedSet

end BoardFarm
