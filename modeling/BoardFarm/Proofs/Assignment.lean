import BoardFarm.Scheduling
import Mathlib.Data.List.Nodup

/-!
# Assignments

A pass gives away each of its places once, and the next pass only goes on with the places that
are left. So places of different names are given to at most one filter each.

* `Scheduling.nodup_pairings`: no place is given away twice.
* `Scheduling.get?_assign_inj`: two filters are not given the same place.
-/

namespace BoardFarm.Scheduling

theorem serve_sublist (used : List String) (cs : List Candidates) :
    ((serve used cs).map Pairing.place).Sublist (cs.map (fun c => c.place.name)) := by
  induction cs generalizing used with
  | nil => exact List.Sublist.refl _
  | cons c rest ih =>
    simp only [serve]
    split
    · exact (ih used).cons _
    · exact (ih _).cons_cons _

theorem candidates_sublist (places filters : List TagSet) :
    ((candidates places filters).map (fun c => c.place.name)).Sublist
      (places.map TagSet.name) := by
  have hmap : (places.map (fun p => Candidates.mk p (filters.filter (fun f => f.fits p)))).map
      (fun c => c.place.name) = places.map TagSet.name := by
    rw [List.map_map]
    rfl
  rw [← hmap]
  exact List.filter_sublist.map _

theorem pass_sublist (places filters : List TagSet) :
    ((pass places filters).map Pairing.place).Sublist (places.map TagSet.name) := by
  unfold pass
  dsimp only
  split
  · exact List.nil_sublist _
  · exact (serve_sublist _ _).trans ((List.filter_sublist.map _).trans
      (candidates_sublist places filters))

/-- The places that are left behind some pairings. -/
def placesLeft (paired : List Pairing) (places : List TagSet) : List TagSet :=
  places.filter (fun p => !(paired.map (·.place)).contains p.name)

/-- The filters that are left behind some pairings. -/
def filtersLeft (paired : List Pairing) (filters : List TagSet) : List TagSet :=
  filters.filter (fun f => !(paired.map (·.filter)).contains f.name)

theorem mem_placesLeft {paired : List Pairing} {places : List TagSet} {p : TagSet} :
    p ∈ placesLeft paired places ↔ p ∈ places ∧ p.name ∉ paired.map Pairing.place := by
  simp [placesLeft]

theorem mem_filtersLeft {paired : List Pairing} {filters : List TagSet} {f : TagSet} :
    f ∈ filtersLeft paired filters ↔ f ∈ filters ∧ f.name ∉ paired.map Pairing.filter := by
  simp [filtersLeft]

theorem passes_of_pass_eq_nil {fuel : Nat} {places filters : List TagSet}
    (h : pass places filters = []) : passes fuel places filters = [] := by
  cases fuel with
  | zero => rfl
  | succ fuel => simp only [passes, h]

theorem passes_succ {fuel : Nat} {places filters : List TagSet} (h : pass places filters ≠ []) :
    passes (fuel + 1) places filters =
      pass places filters ++ passes fuel (placesLeft (pass places filters) places)
        (filtersLeft (pass places filters) filters) := by
  rw [passes]
  split
  · rename_i hnil
    exact absurd hnil h
  · rfl

/-- The passes give each place away at most once, and only places that there are. -/
theorem passes_places (fuel : Nat) {places : List TagSet} (filters : List TagSet)
    (hplaces : (places.map TagSet.name).Nodup) :
    ((passes fuel places filters).map Pairing.place).Nodup ∧
      ∀ name ∈ (passes fuel places filters).map Pairing.place,
        name ∈ places.map TagSet.name := by
  induction fuel generalizing places filters with
  | zero => exact ⟨List.nodup_nil, fun name h => by cases h⟩
  | succ fuel ih =>
    by_cases hnil : pass places filters = []
    · rw [passes_of_pass_eq_nil hnil]
      exact ⟨List.nodup_nil, fun name h => by cases h⟩
    · have hpass := pass_sublist places filters
      have hleft : (placesLeft (pass places filters) places).Sublist places :=
        List.filter_sublist
      obtain ⟨hnodup, hmem⟩ := ih (filtersLeft (pass places filters) filters)
        (hplaces.sublist (hleft.map _))
      rw [passes_succ hnil, List.map_append]
      refine ⟨List.nodup_append.mpr ⟨hplaces.sublist hpass, hnodup, ?_⟩, ?_⟩
      · intro name hname name' hname' he
        obtain ⟨p, hp, hpn⟩ := List.mem_map.mp (hmem name' hname')
        have hnot := (mem_placesLeft.mp hp).2
        rw [hpn, ← he] at hnot
        exact hnot hname
      · intro name hname
        rcases List.mem_append.mp hname with h | h
        · exact hpass.subset h
        · exact (hleft.map _).subset (hmem name h)

theorem nodup_sorted_places {places : List TagSet} (h : (places.map TagSet.name).Nodup) :
    ((stableSort TagSet.nameBefore places).map TagSet.name).Nodup :=
  ((perm_stableSort _ places).map TagSet.name).nodup_iff.mpr h

/-- No place is given away twice. -/
theorem nodup_pairings {places : List TagSet} (filters : List TagSet)
    (h : (places.map TagSet.name).Nodup) :
    ((pairings places filters).map Pairing.place).Nodup :=
  (passes_places _ _ (nodup_sorted_places h)).1

theorem mem_places_of_pairings {places : List TagSet} (filters : List TagSet)
    (h : (places.map TagSet.name).Nodup) {pairing : Pairing}
    (hp : pairing ∈ pairings places filters) : pairing.place ∈ places.map TagSet.name := by
  have hmem := (passes_places _ _ (nodup_sorted_places h)).2 _ (List.mem_map_of_mem hp)
  exact ((perm_stableSort _ places).map TagSet.name).mem_iff.mp hmem

/-- What is given to a filter was made a pairing. -/
theorem mem_pairings_of_assign {places filters : List TagSet} {filter place : String}
    (h : (assign places filters).get? filter = some place) :
    ⟨filter, place⟩ ∈ pairings places filters := by
  obtain ⟨⟨f, p⟩, hp, he⟩ := List.mem_map.mp (SortedMap.mem_of_get?_ofList h)
  cases he
  exact hp

/-- Only places that there are are given to filters. -/
theorem mem_places_of_assign {places filters : List TagSet}
    (h : (places.map TagSet.name).Nodup) {filter place : String}
    (ha : (assign places filters).get? filter = some place) : place ∈ places.map TagSet.name :=
  mem_places_of_pairings filters h (mem_pairings_of_assign ha)

/-- Two filters are not given the same place. -/
theorem get?_assign_inj {places filters : List TagSet} (h : (places.map TagSet.name).Nodup)
    {filter filter' place : String} (ha : (assign places filters).get? filter = some place)
    (ha' : (assign places filters).get? filter' = some place) : filter = filter' := by
  have hinj := List.inj_on_of_nodup_map (nodup_pairings filters h)
  have he := hinj (mem_pairings_of_assign ha) (mem_pairings_of_assign ha') rfl
  cases he
  rfl

end BoardFarm.Scheduling
