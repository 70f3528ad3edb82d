import BoardFarm.Proofs.ServiceOrder

/-!
# Reordering

The passes meet places and filters in the order of the lists that they are called with, and they
are called with sorted lists. A strict order on names, or on ranks and names, leaves one way to sort
elements with different names. So the order in which places and filters come in does not show.

* `stableSort_eq_of_perm`: a sorted list depends on the elements only.
* `Scheduling.assign_eq_of_perm`: so does an assignment.
-/

namespace BoardFarm

theorem stableSort_eq_of_perm {α : Type} {before : α → α → Bool} {l l' : List α}
    (hasymm : ∀ a b, before a b = true → before b a = false)
    (hneg : ∀ a b c, before b a = false → before c b = false → before c a = false)
    (hconnected : ∀ a ∈ l, ∀ b ∈ l, before a b = false → before b a = false → a = b)
    (h : l.Perm l') : stableSort before l = stableSort before l' := by
  have hperm : (stableSort before l).Perm (stableSort before l') :=
    (perm_stableSort before l).trans (h.trans (perm_stableSort before l').symm)
  refine hperm.eq_of_pairwise ?_ (pairwise_stableSort hasymm hneg l)
    (pairwise_stableSort hasymm hneg l')
  intro a b ha hb hba hab
  exact hconnected a (mem_stableSort.mp ha) b (h.mem_iff.mpr (mem_stableSort.mp hb)) hab hba

namespace TagSet

theorem nameBefore_eq_true_iff {a b : TagSet} : a.nameBefore b = true ↔ a.name < b.name := by
  simp [nameBefore]

theorem nameBefore_eq_false_iff {a b : TagSet} :
    a.nameBefore b = false ↔ b.name = a.name ∨ b.name < a.name := by
  rw [← Bool.not_eq_true, nameBefore_eq_true_iff]
  constructor
  · intro h
    by_cases hlt : b.name < a.name
    · exact Or.inr hlt
    · exact Or.inl (KeyOrder.connected hlt h)
  · rintro (he | hlt)
    · rw [he]
      exact KeyOrder.irrefl a.name
    · exact KeyOrder.asymm hlt

theorem nameBefore_asymm (a b : TagSet) (h : a.nameBefore b = true) : b.nameBefore a = false :=
  nameBefore_eq_false_iff.mpr (Or.inr (nameBefore_eq_true_iff.mp h))

theorem not_nameBefore_trans (a b c : TagSet) (h : b.nameBefore a = false)
    (h' : c.nameBefore b = false) : c.nameBefore a = false := by
  rw [nameBefore_eq_false_iff] at h h' ⊢
  rcases h with he | hlt
  · rw [he]
    exact h'
  · rcases h' with he' | hlt'
    · exact Or.inr (he' ▸ hlt)
    · exact Or.inr (KeyOrder.trans hlt hlt')

theorem sort_by_name_eq_of_perm {places places' : List TagSet}
    (hnodup : (places.map TagSet.name).Nodup) (h : places.Perm places') :
    stableSort nameBefore places = stableSort nameBefore places' := by
  refine stableSort_eq_of_perm nameBefore_asymm not_nameBefore_trans ?_ h
  intro a ha b hb hab hba
  refine List.inj_on_of_nodup_map hnodup ha hb (KeyOrder.connected ?_ ?_)
  · exact fun hlt => by simp [nameBefore_eq_true_iff.mpr hlt] at hab
  · exact fun hlt => by simp [nameBefore_eq_true_iff.mpr hlt] at hba

theorem sort_by_rank_eq_of_perm {filters filters' : List TagSet}
    (hnodup : (filters.map TagSet.name).Nodup) (h : filters.Perm filters') :
    stableSort rankBefore filters = stableSort rankBefore filters' := by
  refine stableSort_eq_of_perm rankBefore_asymm not_rankBefore_trans ?_ h
  intro a ha b hb hab hba
  exact List.inj_on_of_nodup_map hnodup ha hb (name_eq_of_not_rankBefore hab hba).2

end TagSet

namespace Scheduling

/-- The order of the places and of the filters does not matter. -/
theorem assign_eq_of_perm {places places' filters filters' : List TagSet}
    (hplaces : (places.map TagSet.name).Nodup) (hfilters : (filters.map TagSet.name).Nodup)
    (hp : places.Perm places') (hf : filters.Perm filters') :
    assign places' filters' = assign places filters := by
  unfold assign pairings
  rw [TagSet.sort_by_name_eq_of_perm hplaces hp, TagSet.sort_by_rank_eq_of_perm hfilters hf,
    hp.length_eq]

theorem assign_reverse_boards :
    (boards.map TagSet.name).Nodup ∧ (wishes.map TagSet.name).Nodup ∧
      boards.Perm boards.reverse ∧ wishes.Perm wishes.reverse ∧
      assign boards.reverse wishes.reverse = assign boards wishes := by
  have hplaces : (boards.map TagSet.name).Nodup := by decide
  have hfilters : (wishes.map TagSet.name).Nodup := by decide
  have hp : boards.Perm boards.reverse := (List.reverse_perm boards).symm
  have hf : wishes.Perm wishes.reverse := (List.reverse_perm wishes).symm
  exact ⟨hplaces, hfilters, hp, hf, assign_eq_of_perm hplaces hfilters hp hf⟩

end Scheduling

end BoardFarm
