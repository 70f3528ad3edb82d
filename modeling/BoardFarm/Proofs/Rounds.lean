import BoardFarm.Proofs.ServiceOrder

/-!
# Rounds

`Scheduling.passes` counts its passes down from a bound, so it ends for a reason that has nothing
to do with places and filters. `Scheduling.Rounds` goes on without a bound, as long as a pass pairs
something. It ends as well, and before the bound is reached, for a pass that pairs something gives
a place away: the bound never cuts an assignment short.

* `Scheduling.exists_rounds`, `Scheduling.Rounds.length_le`: the rounds end, after at most one pass
  for each place and one more.
* `Scheduling.Rounds.assign_eq`: an assignment is what the rounds over the sorted lists pair.
* `Scheduling.assign_sound`: filters are given places that carry all of their tags, no place twice.
-/

namespace BoardFarm.Scheduling

/-- Passes on what is left, until one pairs nothing: their number, and what they pair. -/
inductive Rounds : List TagSet → List TagSet → Nat → List Pairing → Prop
  | last {places filters : List TagSet} (h : pass places filters = []) :
      Rounds places filters 1 []
  | next {places filters : List TagSet} {n : Nat} {later : List Pairing}
      (h : pass places filters ≠ [])
      (rounds : Rounds (placesLeft (pass places filters) places)
        (filtersLeft (pass places filters) filters) n later) :
      Rounds places filters (n + 1) (pass places filters ++ later)

variable {places filters : List TagSet} {n : Nat} {paired : List Pairing}

/-- Each round but the last gives a place away. -/
theorem Rounds.length_le (h : Rounds places filters n paired) : n ≤ places.length + 1 := by
  induction h with
  | last _ => omega
  | next h _ ih =>
    have hshorter := length_placesLeft_lt h
    omega

theorem exists_rounds (places filters : List TagSet) :
    ∃ n paired, Rounds places filters n paired := by
  induction hlen : places.length using Nat.strongRecOn generalizing places filters with
  | ind len ih =>
    by_cases h : pass places filters = []
    · exact ⟨1, [], .last h⟩
    · have hshorter := length_placesLeft_lt h
      rw [hlen] at hshorter
      obtain ⟨n, later, hrounds⟩ := ih _ hshorter (placesLeft (pass places filters) places)
        (filtersLeft (pass places filters) filters) rfl
      exact ⟨n + 1, _, .next h hrounds⟩

/-- A bound that the rounds do not reach does not matter. -/
theorem Rounds.passes_eq {fuel : Nat} (h : Rounds places filters n paired) (hfuel : n ≤ fuel) :
    passes fuel places filters = paired := by
  induction h generalizing fuel with
  | last h => exact passes_of_pass_eq_nil h
  | next h _ ih =>
    obtain ⟨fuel, rfl⟩ : ∃ k, fuel = k + 1 := ⟨fuel - 1, by omega⟩
    rw [passes_succ h, ih (by omega)]

theorem Rounds.assign_eq (h : Rounds (stableSort TagSet.nameBefore places)
    (stableSort TagSet.rankBefore filters) n paired) :
    n ≤ places.length + 1 ∧
      assign places filters = SortedMap.ofList (paired.map (fun x => (x.filter, x.place))) := by
  have hlen := h.length_le
  rw [(perm_stableSort _ places).length_eq] at hlen
  have hpairings : pairings places filters = paired := h.passes_eq hlen
  refine ⟨hlen, ?_⟩
  unfold assign
  rw [hpairings]

/-- What an assignment may be: filters that there are have places that there are, one place for
each of them, with all the tags that they ask for. -/
structure Sound (places filters : List TagSet) (assignment : SortedMap String String) : Prop where
  filter_given : ∀ {filter place}, assignment.get? filter = some place →
    filter ∈ filters.map TagSet.name
  place_given : ∀ {filter place}, assignment.get? filter = some place →
    place ∈ places.map TagSet.name
  apart : ∀ {filter filter' place}, assignment.get? filter = some place →
    assignment.get? filter' = some place → filter = filter'
  carries : ∀ {f p : TagSet}, f ∈ filters → p ∈ places →
    assignment.get? f.name = some p.name → ∀ tag, f.tags.has tag = true → p.tags.has tag = true

theorem sound_assign (hplaces : (places.map TagSet.name).Nodup)
    (hfilters : (filters.map TagSet.name).Nodup) :
    Sound places filters (assign places filters) where
  filter_given h := by
    obtain ⟨f, hf, _, _, hname, _⟩ := exists_fits_of_assign h
    exact List.mem_map.mpr ⟨f, hf, hname⟩
  place_given h := mem_places_of_assign hplaces h
  apart h h' := get?_assign_inj hplaces h h'
  carries hf hp h := SortedSet.isSubset_iff.mp (fits_of_assign hplaces hfilters hf hp h)

/-- The rounds over the sorted lists end, with no more rounds than places and one, and what they
pair is the assignment. It is sound. -/
theorem assign_sound (hplaces : (places.map TagSet.name).Nodup)
    (hfilters : (filters.map TagSet.name).Nodup) :
    (∃ n paired, Rounds (stableSort TagSet.nameBefore places)
        (stableSort TagSet.rankBefore filters) n paired) ∧
      (∀ n paired, Rounds (stableSort TagSet.nameBefore places)
          (stableSort TagSet.rankBefore filters) n paired →
        n ≤ places.length + 1 ∧
          assign places filters =
            SortedMap.ofList (paired.map (fun x => (x.filter, x.place)))) ∧
      Sound places filters (assign places filters) :=
  ⟨exists_rounds _ _, fun _ _ h => h.assign_eq, sound_assign hplaces hfilters⟩

theorem assign_sound_boards :
    (boards.map TagSet.name).Nodup ∧ (wishes.map TagSet.name).Nodup ∧
      (assign boards wishes).toList = [("early", "desk"), ("late", "rack")] ∧
      Sound boards wishes (assign boards wishes) := by
  have hplaces : (boards.map TagSet.name).Nodup := by decide
  have hfilters : (wishes.map TagSet.name).Nodup := by decide
  exact ⟨hplaces, hfilters, by decide +kernel, (assign_sound hplaces hfilters).2.2⟩

end BoardFarm.Scheduling
