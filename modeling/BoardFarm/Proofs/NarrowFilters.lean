import BoardFarm.Proofs.ServiceOrder

/-!
# Narrow filters

A place with few fitting filters is served before one with many, so that a filter with alternatives
leaves a place to a filter that fits no other. It does so for an alternative that no other filter
fits, which is served first. But it may take the place and leave an alternative free that other
filters fit as well, when all of these are served elsewhere, in the same pass or later.

* `Scheduling.length_fitting_le_of_pass`: a pass gives a filter the place with the fewest fitting
  filters among those that it fits.
* `Scheduling.length_left_lt_of_passes`: an alternative that stays free is fitted by more filters
  than are left over at the place that was given away.
* `Scheduling.alternatives_given_iff`: when a filter that took a place from another one has no
  alternative that stays free.
* `Scheduling.relay_starved`: three places and three filters, one for each, of which two are served.
-/

namespace BoardFarm.Scheduling

variable {places filters : List TagSet}

/-- The filters that fit a place. -/
def fitting (filters : List TagSet) (p : TagSet) : List TagSet := filters.filter (fun f => f.fits p)

theorem mem_fitting {f p : TagSet} : f ∈ fitting filters p ↔ f ∈ filters ∧ f.fits p = true :=
  List.mem_filter

theorem length_fitting_filtersLeft_le (paired : List Pairing) (filters : List TagSet)
    (p : TagSet) :
    (fitting (filtersLeft paired filters) p).length ≤ (fitting filters p).length :=
  (List.filter_sublist.filter _).length_le

/-- A filter that has been used is not left. -/
theorem length_fitting_filtersLeft_lt {paired : List Pairing} {f p : TagSet} (hf : f ∈ filters)
    (hfits : f.fits p = true) (hpaired : f.name ∈ paired.map Pairing.filter) :
    (fitting (filtersLeft paired filters) p).length < (fitting filters p).length := by
  have hsame : fitting (filtersLeft paired filters) p = filtersLeft paired (fitting filters p) := by
    unfold fitting filtersLeft
    rw [List.filter_filter, List.filter_filter]
    exact List.filter_congr (fun g _ => Bool.and_comm _ _)
  rw [hsame]
  refine Nat.lt_of_le_of_ne (List.length_filter_le _ _) ?_
  intro he
  have hleft : f ∈ filtersLeft paired (fitting filters p) :=
    List.mem_filter.mpr ⟨mem_fitting.mpr ⟨hf, hfits⟩,
      List.length_filter_eq_length_iff.mp he f (mem_fitting.mpr ⟨hf, hfits⟩)⟩
  exact (mem_filtersLeft.mp hleft).2 hpaired

theorem filtersLeft_append (first later : List Pairing) (filters : List TagSet) :
    filtersLeft (first ++ later) filters = filtersLeft later (filtersLeft first filters) := by
  unfold filtersLeft
  rw [List.filter_filter]
  refine List.filter_congr (fun f _ => ?_)
  simp [Bool.and_comm]

/-! ## A pass, and the passes behind it -/

/-- Each place that a pass gives away has the fewest fitting filters among the places that some
filter fits. -/
theorem length_fitting_le_of_pass (hnodup : (places.map TagSet.name).Nodup) {p q : TagSet}
    (hp : p ∈ places) (hgiven : p.name ∈ (pass places filters).map Pairing.place)
    (hq : q ∈ places) {f : TagSet} (hf : f ∈ filters) (hfits : f.fits q = true) :
    (fitting filters p).length ≤ (fitting filters q).length := by
  have hcand : Candidates.mk q (fitting filters q) ∈ candidates places filters := by
    refine List.mem_filter.mpr ⟨List.mem_map_of_mem hq, ?_⟩
    simpa using List.ne_nil_of_mem (mem_fitting.mpr ⟨hf, hfits⟩)
  obtain ⟨x, hx, hplace⟩ := List.mem_map.mp hgiven
  unfold pass at hx
  dsimp only at hx
  split at hx
  · cases hx
  · rename_i n hmin
    obtain ⟨_, c, hc, _, _, _, hcx⟩ := (serve_filters [] _).2 x hx
    obtain ⟨hc, hn⟩ := List.mem_filter.mp hc
    obtain ⟨p', hp', rfl⟩ := List.mem_map.mp (List.mem_of_mem_filter hc)
    have hpp : p' = p := List.inj_on_of_nodup_map hnodup hp' hp (hcx.trans hplace)
    subst hpp
    have hn : (fitting filters p').length = n := beq_iff_eq.mp hn
    rw [hn]
    exact (List.min?_eq_some_iff.mp hmin).2 _ (List.mem_map_of_mem hcand)

/-- An alternative that stays free is fitted by more filters than are left over at the place that
was given away. -/
theorem length_left_lt_of_passes {fuel : Nat} (hnodup : (places.map TagSet.name).Nodup)
    {f p q : TagSet} (hf : f ∈ filters) (hp : p ∈ places) (hq : q ∈ places)
    (hpaired : ⟨f.name, p.name⟩ ∈ passes fuel places filters) (hfits : f.fits q = true)
    (hfree : q.name ∉ (passes fuel places filters).map Pairing.place) :
    (fitting (filtersLeft (passes fuel places filters) filters) p).length <
      (fitting filters q).length := by
  induction fuel generalizing places filters with
  | zero => cases hpaired
  | succ fuel ih =>
    have hsome := pass_ne_nil hf hq hfits
    rw [passes_succ hsome] at hpaired hfree ⊢
    rw [List.map_append, List.mem_append, not_or] at hfree
    rw [filtersLeft_append]
    rcases List.mem_append.mp hpaired with hnow | hlater
    · -- the filter is used in this pass, where the place had no more fitting filters than `q`
      obtain ⟨p', hp', f', hf', hfits', hname, hplace⟩ := (pass_filters places filters).2 _ hnow
      have hpp : p' = p := List.inj_on_of_nodup_map hnodup hp' hp hplace
      subst hpp
      have hused : f'.name ∈ (pass places filters).map Pairing.filter :=
        List.mem_map.mpr ⟨_, hnow, hname.symm⟩
      have hgiven : p'.name ∈ (pass places filters).map Pairing.place :=
        List.mem_map.mpr ⟨_, hnow, rfl⟩
      calc (fitting (filtersLeft _ (filtersLeft (pass places filters) filters)) p').length
          ≤ (fitting (filtersLeft (pass places filters) filters) p').length :=
            length_fitting_filtersLeft_le _ _ _
        _ < (fitting filters p').length := length_fitting_filtersLeft_lt hf' hfits' hused
        _ ≤ (fitting filters q).length :=
            length_fitting_le_of_pass hnodup hp hgiven hq hf hfits
    · -- the filter and both places are left for the passes behind
      obtain ⟨p', hp', f', hf', _, hname, hplace⟩ := (passes_filters _ _ _).2 _ hlater
      have hfleft : f ∈ filtersLeft (pass places filters) filters :=
        mem_filtersLeft.mpr ⟨hf, fun hmem => (mem_filtersLeft.mp hf').2 (hname.symm ▸ hmem)⟩
      have hpleft : p ∈ placesLeft (pass places filters) places :=
        mem_placesLeft.mpr ⟨hp, fun hmem => (mem_placesLeft.mp hp').2 (hplace.symm ▸ hmem)⟩
      have hlt := ih (hnodup.sublist (List.filter_sublist.map _)) hfleft hpleft
        (mem_placesLeft.mpr ⟨hq, hfree.1⟩) hlater hfree.2
      exact Nat.lt_of_lt_of_le hlt (length_fitting_filtersLeft_le _ _ _)

/-! ## Alternatives -/

/-- A place has been given to some filter. -/
def Given (places filters : List TagSet) (place : String) : Prop :=
  ∃ f ∈ filters, (assign places filters).get? f.name = some place

/-- All filters that fit a place have been given other places. -/
def Drained (places filters : List TagSet) (q : TagSet) : Prop :=
  ∀ f ∈ filters, f.fits q = true →
    ∃ p ∈ places, p.name ≠ q.name ∧ (assign places filters).get? f.name = some p.name

/-- The filters that fit a place and have not been given any. -/
def leftOver (places filters : List TagSet) (p : TagSet) : List TagSet :=
  (fitting filters p).filter (fun f => (assign places filters).get? f.name = none)

instance (place : String) : Decidable (Given places filters place) := by
  unfold Given
  infer_instance

instance (q : TagSet) : Decidable (Drained places filters q) := by
  unfold Drained
  infer_instance

theorem unpaired_iff {name : String} :
    name ∉ (pairings places filters).map Pairing.filter ↔
      (assign places filters).get? name = none := by
  constructor
  · intro h
    cases hget : (assign places filters).get? name with
    | none => rfl
    | some place => exact absurd (List.mem_map.mpr ⟨_, get?_assign_iff.mp hget, rfl⟩) h
  · intro h hmem
    obtain ⟨⟨filter, place⟩, hx, rfl⟩ := List.mem_map.mp hmem
    rw [get?_assign_iff.mpr hx] at h
    cases h

/-- A place stays free just if it is drained. -/
theorem given_iff_not_drained (hplaces : (places.map TagSet.name).Nodup)
    (hfilters : (filters.map TagSet.name).Nodup) {q : TagSet} (hq : q ∈ places) :
    Given places filters q.name ↔ ¬ Drained places filters q := by
  constructor
  · rintro ⟨g, hg, hgiven⟩ hdrained
    obtain ⟨p, _, hne, hget⟩ := hdrained g hg (fits_of_assign hplaces hfilters hg hq hgiven)
    rw [hgiven] at hget
    exact hne (Option.some.inj hget).symm
  · intro hnot
    by_contra hfree
    apply hnot
    intro g hg hgfits
    cases hget : (assign places filters).get? g.name with
    | none =>
      obtain ⟨w, hw, hgiven, _⟩ := exists_assigned_of_fits hplaces hg hget hq hgfits
      exact absurd ⟨w, hw, hgiven⟩ hfree
    | some place =>
      obtain ⟨p, hp, rfl⟩ := List.mem_map.mp (mem_places_of_assign hplaces hget)
      exact ⟨p, hp, fun he => hfree ⟨g, hg, he ▸ hget⟩, rfl⟩

/-- An alternative is drained only if more filters fit it than are left over at the place that was
given away. -/
theorem length_leftOver_lt (hplaces : (places.map TagSet.name).Nodup)
    (hfilters : (filters.map TagSet.name).Nodup) {f p q : TagSet} (hf : f ∈ filters)
    (hp : p ∈ places) (hq : q ∈ places)
    (hgiven : (assign places filters).get? f.name = some p.name) (hfits : f.fits q = true)
    (hdrained : Drained places filters q) :
    (leftOver places filters p).length < (fitting filters q).length := by
  have hfree : q.name ∉ (pairings places filters).map Pairing.place := by
    intro hmem
    obtain ⟨⟨filter, place⟩, hx, rfl⟩ := List.mem_map.mp hmem
    have hget := get?_assign_iff.mpr hx
    obtain ⟨g, hg, _, _, rfl, _⟩ := exists_fits_of_assign hget
    exact (given_iff_not_drained hplaces hfilters hq).mp ⟨g, hg, hget⟩ hdrained
  have hlt := length_left_lt_of_passes (nodup_sorted_places hplaces) (mem_stableSort.mpr hf)
    (mem_stableSort.mpr hp) (mem_stableSort.mpr hq) (get?_assign_iff.mp hgiven) hfits hfree
  have hperm := perm_stableSort TagSet.rankBefore filters
  have hsame : leftOver places filters p =
      fitting (filtersLeft (pairings places filters) filters) p := by
    unfold leftOver fitting filtersLeft
    rw [List.filter_filter, List.filter_filter]
    refine List.filter_congr (fun g _ => ?_)
    rw [Bool.and_comm]
    congr 1
    rw [Bool.eq_iff_iff]
    simpa using unpaired_iff.symm
  rw [hsame]
  have hleft := ((hperm.filter (fun f =>
    !((pairings places filters).map (·.filter)).contains f.name)).filter
      (fun f => f.fits p)).length_eq
  have hall := (hperm.filter (fun f => f.fits q)).length_eq
  exact hleft ▸ hall ▸ hlt

/-- A filter without a place, however few places it fits, lost each of them to one filter that is
served earlier. All alternatives of that filter are given away just if none of them is drained, and
only an alternative that more filters fit than are left over at the lost place can be. -/
theorem alternatives_given_iff (hplaces : (places.map TagSet.name).Nodup)
    (hfilters : (filters.map TagSet.name).Nodup) {n p : TagSet} (hn : n ∈ filters)
    (hleft : (assign places filters).get? n.name = none) (hp : p ∈ places)
    (hfits : n.fits p = true) :
    ((∃ b ∈ filters, (assign places filters).get? b.name = some p.name ∧
        ∀ q ∈ places, q.name ≠ p.name → b.fits q = true → Given places filters q.name) ↔
      ∀ b ∈ filters, (assign places filters).get? b.name = some p.name →
        ∀ q ∈ places, q.name ≠ p.name → b.fits q = true → ¬ Drained places filters q) ∧
    ∃ b ∈ filters, (assign places filters).get? b.name = some p.name ∧ b.fits p = true ∧
      (b.rank < n.rank ∨ b.rank = n.rank ∧ b.name < n.name) ∧
      ∀ q ∈ places, q.name ≠ p.name → b.fits q = true → Drained places filters q →
        (leftOver places filters p).length < (fitting filters q).length := by
  obtain ⟨b, hb, hgiven, hbefore⟩ := exists_assigned_of_fits hplaces hn hleft hp hfits
  have hdrained : ∀ q ∈ places, Given places filters q.name ↔ ¬ Drained places filters q :=
    fun q hq => given_iff_not_drained hplaces hfilters hq
  refine ⟨⟨?_, fun hnone => ⟨b, hb, hgiven, ?_⟩⟩, b, hb, hgiven,
    fits_of_assign hplaces hfilters hb hp hgiven, TagSet.rankBefore_eq_true_iff.mp hbefore, ?_⟩
  · rintro ⟨b', hb', hgiven', hall⟩ c hc hcgiven q hq hne hcfits
    have hname : c.name = b'.name := get?_assign_inj hplaces hcgiven hgiven'
    have hcb : c = b' := List.inj_on_of_nodup_map hfilters hc hb' hname
    subst hcb
    exact (hdrained q hq).mp (hall q hq hne hcfits)
  · intro q hq hne hbfits
    exact (hdrained q hq).mpr (hnone b hb hgiven q hq hne hbfits)
  · intro q hq _ hbfits hq'
    exact length_leftOver_lt hplaces hfilters hb hp hq hgiven hbfits hq'

/-- The filter `power` lost the rack to `late`, whose alternative has been given away. -/
theorem alternatives_given_power :
    (assign boards wishes).get? "power" = none ∧
      ∃ b ∈ wishes, (assign boards wishes).get? b.name = some "rack" ∧
        ∀ q ∈ boards, q.name ≠ "rack" → b.fits q = true → Given boards wishes q.name := by
  have hleft : (assign boards wishes).get? "power" = none := by decide +kernel
  have hiff := alternatives_given_iff
    (by decide : (boards.map TagSet.name).Nodup) (by decide : (wishes.map TagSet.name).Nodup)
    (List.mem_cons_self .. : ⟨"power", SortedSet.ofList [⟨"switch", "yes"⟩], 2⟩ ∈ wishes) hleft
    (List.mem_cons_of_mem _ (List.mem_cons_self ..) :
      ⟨"rack", SortedSet.ofList [⟨"board", "mx8"⟩, ⟨"switch", "yes"⟩], 0⟩ ∈ boards)
    (by decide +kernel)
  exact ⟨hleft, hiff.1.mpr (by decide +kernel)⟩

/-- Three boards: one with a switch, two with a socket. -/
def benches : List TagSet :=
  [⟨"desk", SortedSet.ofList [⟨"board", "mx8"⟩, ⟨"switch", "yes"⟩], 0⟩,
   ⟨"rack", SortedSet.ofList [⟨"board", "mx8"⟩, ⟨"usb", "yes"⟩], 0⟩,
   ⟨"tray", SortedSet.ofList [⟨"board", "mx8"⟩, ⟨"usb", "yes"⟩], 0⟩]

/-- Three filters of one rank: for any board, for a socket, and for the switch. -/
def orders : List TagSet :=
  [⟨"any", SortedSet.ofList [⟨"board", "mx8"⟩], 0⟩,
   ⟨"port", SortedSet.ofList [⟨"usb", "yes"⟩], 0⟩,
   ⟨"relay", SortedSet.ofList [⟨"switch", "yes"⟩], 0⟩]

/-- The filter `relay` fits the desk only, and loses it to `any`, which is considered earlier for
its name. Another board that `any` fits stays free, since both filters that fit it are served
elsewhere. -/
theorem relay_starved :
    (benches.map TagSet.name).Nodup ∧ (orders.map TagSet.name).Nodup ∧
      (∃ n ∈ orders, n.name = "relay" ∧ ∀ q ∈ benches, n.fits q = true ↔ q.name = "desk") ∧
      (assign benches orders).toList = [("any", "desk"), ("port", "rack")] ∧
      ¬ ∃ b ∈ orders, (assign benches orders).get? b.name = some "desk" ∧
        ∀ q ∈ benches, q.name ≠ "desk" → b.fits q = true → Given benches orders q.name := by
  decide +kernel

end BoardFarm.Scheduling
