import BoardFarm.Proofs.Assignment

/-!
# The order of service

A pass serves the places with the fewest fitting filters, not the filters of the lowest rank, and
goes on with what is left. Still no filter is overtaken: a filter that is left over was there in
the pass that gave a place away which it fits, unused, so the place went to a filter in front of
it. The passes end only when no filter that is left fits a place that is left.

* `pairwise_stableSort`: sorting puts nothing in front of what precedes it.
* `Scheduling.get?_assign_iff`: the assignment consists of the pairings.
* `Scheduling.exists_fits_of_assign`: a filter that is given a place fits it.
* `Scheduling.exists_assigned_of_fits`, `Scheduling.exists_winner_of_unassigned`: a place that a
  left-over filter fits is given to a filter that is served earlier.
-/

namespace BoardFarm

variable {α : Type} {before : α → α → Bool}

theorem pairwise_stableInsert (hasymm : ∀ a b, before a b = true → before b a = false)
    (hneg : ∀ a b c, before b a = false → before c b = false → before c a = false) (a : α)
    {l : List α} (hl : l.Pairwise (fun x y => before y x = false)) :
    (stableInsert before a l).Pairwise (fun x y => before y x = false) := by
  induction l with
  | nil => exact List.pairwise_singleton _ _
  | cons b rest ih =>
    obtain ⟨hb, hrest⟩ := List.pairwise_cons.mp hl
    simp only [stableInsert]
    split
    · rename_i hba
      refine List.pairwise_cons.mpr ⟨?_, ih hrest⟩
      intro c hc
      rcases List.mem_cons.mp ((perm_stableInsert before a rest).mem_iff.mp hc) with rfl | hc
      · exact hasymm b c hba
      · exact hb c hc
    · rename_i hba
      have hba' : before b a = false := by simpa using hba
      refine List.pairwise_cons.mpr ⟨?_, hl⟩
      intro c hc
      rcases List.mem_cons.mp hc with rfl | hc
      · exact hba'
      · exact hneg a b c hba' (hb c hc)

theorem pairwise_stableSort (hasymm : ∀ a b, before a b = true → before b a = false)
    (hneg : ∀ a b c, before b a = false → before c b = false → before c a = false)
    (l : List α) : (stableSort before l).Pairwise (fun x y => before y x = false) := by
  induction l with
  | nil => exact List.Pairwise.nil
  | cons a rest ih => exact pairwise_stableInsert hasymm hneg a ih

namespace TagSet

theorem rankBefore_eq_true_iff {a b : TagSet} :
    a.rankBefore b = true ↔ a.rank < b.rank ∨ a.rank = b.rank ∧ a.name < b.name := by
  simp [rankBefore]

theorem rankBefore_asymm (a b : TagSet) (h : a.rankBefore b = true) : b.rankBefore a = false := by
  rw [← Bool.not_eq_true]
  intro h'
  rw [rankBefore_eq_true_iff] at h h'
  rcases h with h | ⟨_, h⟩
  · omega
  · rcases h' with h' | ⟨_, h'⟩
    · omega
    · exact KeyOrder.asymm h h'

theorem rankBefore_trans {a b c : TagSet} (h : a.rankBefore b = true)
    (h' : b.rankBefore c = true) : a.rankBefore c = true := by
  rw [rankBefore_eq_true_iff] at h h' ⊢
  rcases h with h | ⟨he, h⟩
  · rcases h' with h' | ⟨he', _⟩ <;> exact Or.inl (by omega)
  · rcases h' with h' | ⟨he', h'⟩
    · exact Or.inl (by omega)
    · exact Or.inr ⟨by omega, KeyOrder.trans h h'⟩

/-- Two filters that do not precede one another have one name. -/
theorem name_eq_of_not_rankBefore {a b : TagSet} (h : a.rankBefore b = false)
    (h' : b.rankBefore a = false) : a.rank = b.rank ∧ a.name = b.name := by
  rw [← Bool.not_eq_true, rankBefore_eq_true_iff] at h h'
  have hrank : a.rank = b.rank := by
    by_contra hne
    rcases Nat.lt_or_gt_of_ne hne with hlt | hlt
    · exact h (Or.inl hlt)
    · exact h' (Or.inl hlt)
  refine ⟨hrank, KeyOrder.connected ?_ ?_⟩
  · exact fun hlt => h (Or.inr ⟨hrank, hlt⟩)
  · exact fun hlt => h' (Or.inr ⟨hrank.symm, hlt⟩)

theorem not_rankBefore_trans (a b c : TagSet) (h : b.rankBefore a = false)
    (h' : c.rankBefore b = false) : c.rankBefore a = false := by
  rw [← Bool.not_eq_true]
  intro hca
  cases hab : a.rankBefore b with
  | true => exact absurd (rankBefore_trans hca hab) (by simp [h'])
  | false =>
    -- `a` and `b` stand at one position, so `c` would precede `b` as well
    obtain ⟨hrank, hname⟩ := name_eq_of_not_rankBefore hab h
    rw [rankBefore_eq_true_iff, hrank, hname, ← rankBefore_eq_true_iff] at hca
    rw [hca] at h'
    cases h'

theorem sorted_by_rank (filters : List TagSet) :
    (stableSort rankBefore filters).Pairwise (fun a b => b.rankBefore a = false) :=
  pairwise_stableSort rankBefore_asymm not_rankBefore_trans filters

end TagSet

namespace Scheduling

/-! ## Filters are used once -/

theorem serve_filters (used : List String) (cs : List Candidates) :
    ((serve used cs).map Pairing.filter).Nodup ∧
      ∀ x ∈ serve used cs, x.filter ∉ used ∧
        ∃ c ∈ cs, ∃ f ∈ c.fitting, f.name = x.filter ∧ c.place.name = x.place := by
  induction cs generalizing used with
  | nil => exact ⟨List.nodup_nil, fun x hx => by cases hx⟩
  | cons c rest ih =>
    simp only [serve]
    split
    · obtain ⟨hnodup, hall⟩ := ih used
      refine ⟨hnodup, fun x hx => ?_⟩
      obtain ⟨hfresh, d, hd, hf⟩ := hall x hx
      exact ⟨hfresh, d, List.mem_cons_of_mem _ hd, hf⟩
    · rename_i f hf
      obtain ⟨hnodup, hall⟩ := ih (f.name :: used)
      have hunused : f.name ∉ used := by simpa using List.find?_some hf
      refine ⟨?_, fun x hx => ?_⟩
      · rw [List.map_cons, List.nodup_cons]
        refine ⟨?_, hnodup⟩
        intro hmem
        obtain ⟨x, hx, he⟩ := List.mem_map.mp hmem
        exact (hall x hx).1 (he ▸ List.mem_cons_self ..)
      · rcases List.mem_cons.mp hx with rfl | hx
        · exact ⟨hunused, c, List.mem_cons_self .., f, List.mem_of_find?_eq_some hf, rfl, rfl⟩
        · obtain ⟨hfresh, d, hd, hrest⟩ := hall x hx
          exact ⟨fun h => hfresh (List.mem_cons_of_mem _ h), d, List.mem_cons_of_mem _ hd, hrest⟩

theorem pass_filters (places filters : List TagSet) :
    ((pass places filters).map Pairing.filter).Nodup ∧
      ∀ x ∈ pass places filters, ∃ p ∈ places, ∃ f ∈ filters,
        f.fits p = true ∧ f.name = x.filter ∧ p.name = x.place := by
  unfold pass
  dsimp only
  split
  · exact ⟨List.nodup_nil, fun x hx => by cases hx⟩
  · obtain ⟨hnodup, hall⟩ := serve_filters [] ((candidates places filters).filter _)
    refine ⟨hnodup, fun x hx => ?_⟩
    obtain ⟨_, c, hc, f, hf, hname, hplace⟩ := hall x hx
    have hcand := List.mem_of_mem_filter (List.mem_of_mem_filter hc)
    obtain ⟨p, hp, rfl⟩ := List.mem_map.mp hcand
    obtain ⟨hf, hfits⟩ := List.mem_filter.mp hf
    exact ⟨p, hp, f, hf, hfits, hname, hplace⟩

/-- The passes use each filter at most once, and pair it with a place that it fits. -/
theorem passes_filters (fuel : Nat) (places filters : List TagSet) :
    ((passes fuel places filters).map Pairing.filter).Nodup ∧
      ∀ x ∈ passes fuel places filters, ∃ p ∈ places, ∃ f ∈ filters,
        f.fits p = true ∧ f.name = x.filter ∧ p.name = x.place := by
  induction fuel generalizing places filters with
  | zero => exact ⟨List.nodup_nil, fun x hx => by cases hx⟩
  | succ fuel ih =>
    by_cases hnil : pass places filters = []
    · rw [passes_of_pass_eq_nil hnil]
      exact ⟨List.nodup_nil, fun x hx => by cases hx⟩
    · have hpass := pass_filters places filters
      obtain ⟨hnodup, hall⟩ := ih (placesLeft (pass places filters) places)
        (filtersLeft (pass places filters) filters)
      rw [passes_succ hnil, List.map_append]
      refine ⟨List.nodup_append.mpr ⟨hpass.1, hnodup, ?_⟩, fun x hx => ?_⟩
      · intro name hname name' hname' he
        obtain ⟨x, hx, rfl⟩ := List.mem_map.mp hname'
        obtain ⟨_, _, f, hf, _, hfx, _⟩ := hall x hx
        have hnot := (mem_filtersLeft.mp hf).2
        rw [hfx, ← he] at hnot
        exact hnot hname
      · rcases List.mem_append.mp hx with hx | hx
        · exact hpass.2 x hx
        · obtain ⟨p, hp, f, hf, hrest⟩ := hall x hx
          exact ⟨p, List.mem_of_mem_filter hp, f, List.mem_of_mem_filter hf, hrest⟩

theorem get?_assign_iff {places filters : List TagSet} {filter place : String} :
    (assign places filters).get? filter = some place ↔
      ⟨filter, place⟩ ∈ pairings places filters := by
  refine ⟨mem_pairings_of_assign, fun h => ?_⟩
  have hinj := List.inj_on_of_nodup_map (passes_filters (places.length + 1)
    (stableSort TagSet.nameBefore places) (stableSort TagSet.rankBefore filters)).1
  refine (SortedMap.get?_ofList_iff ?_).mpr
    (List.mem_map.mpr ⟨⟨filter, place⟩, h, rfl⟩)
  intro k v w hv hw
  obtain ⟨x, hx, he⟩ := List.mem_map.mp hv
  obtain ⟨y, hy, he'⟩ := List.mem_map.mp hw
  obtain ⟨hxk, rfl⟩ := Prod.mk.inj he
  obtain ⟨hyk, rfl⟩ := Prod.mk.inj he'
  rw [hinj hx hy (hxk.trans hyk.symm)]

/-- A filter that is given a place fits it. -/
theorem exists_fits_of_assign {places filters : List TagSet} {filter place : String}
    (h : (assign places filters).get? filter = some place) :
    ∃ f ∈ filters, ∃ p ∈ places, f.name = filter ∧ p.name = place ∧ f.fits p = true := by
  obtain ⟨p, hp, f, hf, hfits, hfilter, hplace⟩ :=
    (passes_filters _ _ _).2 _ (get?_assign_iff.mp h)
  exact ⟨f, mem_stableSort.mp hf, p, mem_stableSort.mp hp, hfilter, hplace, hfits⟩

theorem fits_of_assign {places filters : List TagSet}
    (hplaces : (places.map TagSet.name).Nodup) (hfilters : (filters.map TagSet.name).Nodup)
    {f p : TagSet} (hf : f ∈ filters) (hp : p ∈ places)
    (h : (assign places filters).get? f.name = some p.name) : f.fits p = true := by
  obtain ⟨f', hf', p', hp', hname, hplace, hfits⟩ := exists_fits_of_assign h
  have hff : f' = f := List.inj_on_of_nodup_map hfilters hf' hf hname
  have hpp : p' = p := List.inj_on_of_nodup_map hplaces hp' hp hplace
  rw [← hff, ← hpp]
  exact hfits

/-! ## No filter is overtaken -/

variable {g : TagSet}

/-- A candidate that a left-over filter fits is served with a filter in front of it. -/
theorem exists_served {used : List String} {cs : List Candidates}
    (hused : g.name ∉ used) (hleft : g.name ∉ (serve used cs).map Pairing.filter)
    {c : Candidates} (hc : c ∈ cs) (hg : g ∈ c.fitting)
    (hsorted : c.fitting.Pairwise (fun a b => b.rankBefore a = false)) :
    ∃ f ∈ c.fitting, ⟨f.name, c.place.name⟩ ∈ serve used cs ∧ g.rankBefore f = false := by
  induction cs generalizing used with
  | nil => cases hc
  | cons d rest ih =>
    simp only [serve] at hleft ⊢
    cases hfind : d.fitting.find? (fun f => !used.contains f.name) with
    | none =>
      simp only [hfind] at hleft ⊢
      rcases List.mem_cons.mp hc with rfl | hc
      · -- `g` itself is unused, so the search does not fail
        have hnot := List.find?_eq_none.mp hfind g hg
        simp [hused] at hnot
      · exact ih hused hleft hc
    | some f =>
      simp only [hfind] at hleft ⊢
      rw [List.map_cons, List.mem_cons, not_or] at hleft
      rcases List.mem_cons.mp hc with rfl | hc
      · obtain ⟨_, front, back, hsplit, hfront⟩ := List.find?_eq_some_iff_append.mp hfind
        refine ⟨f, List.mem_of_find?_eq_some hfind, List.mem_cons_self .., ?_⟩
        rw [hsplit] at hg hsorted
        rcases List.mem_append.mp hg with hg | hg
        · have hnot := hfront g hg
          simp [hused] at hnot
        · rcases List.mem_cons.mp hg with rfl | hg
          · exact absurd rfl hleft.1
          · exact (List.pairwise_cons.mp (List.pairwise_append.mp hsorted).2.1).1 g hg
      · have hused' : g.name ∉ f.name :: used := by
          rw [List.mem_cons, not_or]
          exact ⟨hleft.1, hused⟩
        obtain ⟨e, he, hserved, hbefore⟩ := ih hused' hleft.2 hc
        exact ⟨e, he, List.mem_cons_of_mem _ hserved, hbefore⟩

/-- A pass pairs something as long as some filter fits some place. -/
theorem pass_ne_nil {places filters : List TagSet} (hg : g ∈ filters) {p : TagSet}
    (hp : p ∈ places) (hfits : g.fits p = true) : pass places filters ≠ [] := by
  have hcand : Candidates.mk p (filters.filter (fun f => f.fits p)) ∈
      candidates places filters := by
    refine List.mem_filter.mpr ⟨List.mem_map_of_mem hp, ?_⟩
    have hmem : g ∈ filters.filter (fun f => f.fits p) := List.mem_filter.mpr ⟨hg, hfits⟩
    simpa using List.ne_nil_of_mem hmem
  unfold pass
  dsimp only
  cases hmin : fewest (candidates places filters) with
  | none =>
    have hnone := List.min?_eq_none_iff.mp hmin
    rw [List.map_eq_nil_iff] at hnone
    rw [hnone] at hcand
    cases hcand
  | some n =>
    dsimp only
    obtain ⟨c, hc, hn⟩ := List.mem_map.mp (List.min?_mem hmin)
    have hc' : c ∈ (candidates places filters).filter (fun c => c.fitting.length == n) :=
      List.mem_filter.mpr ⟨hc, by simpa using hn⟩
    cases hcs : (candidates places filters).filter (fun c => c.fitting.length == n) with
    | nil =>
      rw [hcs] at hc'
      cases hc'
    | cons d rest =>
      have hd : d ∈ candidates places filters := by
        refine List.mem_of_mem_filter (p := fun c => c.fitting.length == n) ?_
        rw [hcs]
        exact List.mem_cons_self ..
      have hfitting : d.fitting ≠ [] := by
        simpa using (List.mem_filter.mp hd).2
      obtain ⟨f, fs, hfs⟩ := List.exists_cons_of_ne_nil hfitting
      simp [serve, hfs]

/-- The places that a pass gives away go to filters in front of a left-over filter. -/
theorem exists_paired_of_pass {places filters : List TagSet}
    (hnodup : (places.map TagSet.name).Nodup)
    (hsorted : filters.Pairwise (fun a b => b.rankBefore a = false)) (hg : g ∈ filters)
    (hleft : g.name ∉ (pass places filters).map Pairing.filter) {p : TagSet} (hp : p ∈ places)
    (hfits : g.fits p = true) (hgiven : p.name ∈ (pass places filters).map Pairing.place) :
    ∃ f ∈ filters, ⟨f.name, p.name⟩ ∈ pass places filters ∧ g.rankBefore f = false := by
  unfold pass at hleft hgiven ⊢
  dsimp only at hleft hgiven ⊢
  split at hleft
  · simp_all
  · rename_i n hmin
    simp only [hmin] at hgiven ⊢
    obtain ⟨x, hx, hplace⟩ := List.mem_map.mp hgiven
    obtain ⟨_, c, hc, _, _, _, hcx⟩ := (serve_filters [] _).2 x hx
    have hcand := List.mem_of_mem_filter (List.mem_of_mem_filter hc)
    obtain ⟨q, hq, rfl⟩ := List.mem_map.mp hcand
    have hqp : q = p := List.inj_on_of_nodup_map hnodup hq hp (hcx.trans hplace)
    subst hqp
    have hfitting : g ∈ filters.filter (fun f => f.fits q) := List.mem_filter.mpr ⟨hg, hfits⟩
    obtain ⟨f, hf, hserved, hbefore⟩ := exists_served List.not_mem_nil hleft hc hfitting
      (hsorted.sublist List.filter_sublist)
    exact ⟨f, List.mem_of_mem_filter hf, hserved, hbefore⟩

/-- A pass that pairs something gives a place away. -/
theorem length_placesLeft_lt {places filters : List TagSet} (h : pass places filters ≠ []) :
    (placesLeft (pass places filters) places).length < places.length := by
  obtain ⟨x, hx⟩ := List.exists_mem_of_ne_nil _ h
  obtain ⟨p, hp, _, _, _, _, hpx⟩ := (pass_filters places filters).2 x hx
  have hgiven : p.name ∈ (pass places filters).map Pairing.place :=
    hpx ▸ List.mem_map_of_mem hx
  refine Nat.lt_of_le_of_ne (List.length_filter_le _ _) ?_
  intro he
  have hleft : p ∈ placesLeft (pass places filters) places :=
    List.mem_filter.mpr ⟨hp, List.length_filter_eq_length_iff.mp he p hp⟩
  exact (mem_placesLeft.mp hleft).2 hgiven

theorem exists_paired_of_fits {fuel : Nat} {places filters : List TagSet}
    (hnodup : (places.map TagSet.name).Nodup)
    (hsorted : filters.Pairwise (fun a b => b.rankBefore a = false))
    (hfuel : places.length < fuel) (hg : g ∈ filters)
    (hleft : g.name ∉ (passes fuel places filters).map Pairing.filter) {p : TagSet}
    (hp : p ∈ places) (hfits : g.fits p = true) :
    ∃ f ∈ filters, ⟨f.name, p.name⟩ ∈ passes fuel places filters ∧ g.rankBefore f = false := by
  induction fuel generalizing places filters with
  | zero => omega
  | succ fuel ih =>
    have hsome := pass_ne_nil hg hp hfits
    rw [passes_succ hsome] at hleft ⊢
    rw [List.map_append, List.mem_append, not_or] at hleft
    by_cases hgiven : p.name ∈ (pass places filters).map Pairing.place
    · obtain ⟨f, hf, hpaired, hbefore⟩ :=
        exists_paired_of_pass hnodup hsorted hg hleft.1 hp hfits hgiven
      exact ⟨f, hf, List.mem_append_left _ hpaired, hbefore⟩
    · -- the place and the filter are left for the passes behind, and a place is gone
      have hshorter : (placesLeft (pass places filters) places).length < fuel :=
        Nat.lt_of_lt_of_le (length_placesLeft_lt hsome) (Nat.le_of_lt_succ hfuel)
      obtain ⟨f, hf, hpaired, hbefore⟩ := ih (hnodup.sublist (List.filter_sublist.map _))
        (hsorted.sublist List.filter_sublist) hshorter (mem_filtersLeft.mpr ⟨hg, hleft.1⟩)
        hleft.2 (mem_placesLeft.mpr ⟨hp, hgiven⟩)
      exact ⟨f, List.mem_of_mem_filter hf, List.mem_append_right _ hpaired, hbefore⟩

/-- A place that a filter without a place fits is given to another filter, of lower rank or, at the
same rank, with a smaller name. -/
theorem exists_assigned_of_fits {places filters : List TagSet}
    (hnodup : (places.map TagSet.name).Nodup) (hg : g ∈ filters)
    (hleft : (assign places filters).get? g.name = none) {p : TagSet} (hp : p ∈ places)
    (hfits : g.fits p = true) :
    ∃ f ∈ filters, (assign places filters).get? f.name = some p.name ∧ f.rankBefore g = true := by
  have hunpaired : g.name ∉ (pairings places filters).map Pairing.filter := by
    intro hmem
    obtain ⟨⟨filter, place⟩, hx, rfl⟩ := List.mem_map.mp hmem
    rw [get?_assign_iff.mpr hx] at hleft
    cases hleft
  have hlength : (stableSort TagSet.nameBefore places).length < places.length + 1 := by
    rw [(perm_stableSort _ places).length_eq]
    omega
  obtain ⟨f, hf, hpaired, hbefore⟩ := exists_paired_of_fits (nodup_sorted_places hnodup)
    (TagSet.sorted_by_rank filters) hlength (mem_stableSort.mpr hg) hunpaired
    (mem_stableSort.mpr hp) hfits
  refine ⟨f, mem_stableSort.mp hf, get?_assign_iff.mpr hpaired, ?_⟩
  by_contra hnot
  obtain ⟨_, hname⟩ := TagSet.name_eq_of_not_rankBefore (by simpa using hnot) hbefore
  exact hunpaired (hname ▸ List.mem_map.mpr ⟨⟨f.name, p.name⟩, hpaired, rfl⟩)

/-- A filter without a place lost each place that it fits to a filter that fits it as well and is
served earlier. -/
theorem exists_winner_of_unassigned {places filters : List TagSet}
    (hplaces : (places.map TagSet.name).Nodup) (hfilters : (filters.map TagSet.name).Nodup)
    (hg : g ∈ filters) (hleft : (assign places filters).get? g.name = none) {p : TagSet}
    (hp : p ∈ places) (hfits : g.fits p = true) :
    ∃ f ∈ filters, (assign places filters).get? f.name = some p.name ∧ f.fits p = true ∧
      (f.rank < g.rank ∨ f.rank = g.rank ∧ f.name < g.name) := by
  obtain ⟨f, hf, hgiven, hbefore⟩ := exists_assigned_of_fits hplaces hg hleft hp hfits
  exact ⟨f, hf, hgiven, fits_of_assign hplaces hfilters hf hp hgiven,
    TagSet.rankBefore_eq_true_iff.mp hbefore⟩

/-- Two boards, one of them with a power switch. -/
def boards : List TagSet :=
  [⟨"desk", SortedSet.ofList [⟨"board", "mx8"⟩], 0⟩,
   ⟨"rack", SortedSet.ofList [⟨"board", "mx8"⟩, ⟨"switch", "yes"⟩], 0⟩]

/-- Two filters that fit both boards, and a later one that fits the second board only. -/
def wishes : List TagSet :=
  [⟨"power", SortedSet.ofList [⟨"switch", "yes"⟩], 2⟩,
   ⟨"late", SortedSet.ofList [⟨"board", "mx8"⟩], 1⟩,
   ⟨"early", SortedSet.ofList [⟨"board", "mx8"⟩], 0⟩]

theorem wishes_power_unassigned :
    (assign boards wishes).get? "power" = none ∧
      ∃ f ∈ wishes, (assign boards wishes).get? f.name = some "rack" ∧
        (f.rank < 2 ∨ f.rank = 2 ∧ f.name < "power") := by
  have hleft : (assign boards wishes).get? "power" = none := by decide +kernel
  obtain ⟨f, hf, hgiven, _, hbefore⟩ := exists_winner_of_unassigned
    (by decide : (boards.map TagSet.name).Nodup) (by decide : (wishes.map TagSet.name).Nodup)
    (List.mem_cons_self .. : ⟨"power", SortedSet.ofList [⟨"switch", "yes"⟩], 2⟩ ∈ wishes) hleft
    (List.mem_cons_of_mem _ (List.mem_cons_self ..) :
      ⟨"rack", SortedSet.ofList [⟨"board", "mx8"⟩, ⟨"switch", "yes"⟩], 0⟩ ∈ boards)
    (by decide +kernel)
  exact ⟨hleft, f, hf, hgiven, hbefore⟩

end Scheduling

end BoardFarm
