import BoardFarm.Reconciliation.DriftPlan
import Mathlib.Data.List.Nodup

/-!
# What drift plans contain

Each part of a plan is described by its members: the strays among the published paths, the held
paths to be acquired, those whose handles are to be replaced, and the paths with several holders.

* `DriftPlan.Contested`: a path that two different places hold.
* `DriftPlan.mem_release_iff`, `DriftPlan.mem_acquire_iff`, `DriftPlan.mem_replace_iff`,
  `DriftPlan.mem_conflicts_iff`: the parts of a plan.
-/

namespace BoardFarm.DriftPlan

variable {π : Type} {holdings : List (Holding π)} {path : π}

/-- Two different places hold the path. -/
def Contested (holdings : List (Holding π)) (path : π) : Prop :=
  ∃ h ∈ holdings, ∃ h' ∈ holdings, h.path = path ∧ h'.path = path ∧ h.place ≠ h'.place

theorem not_contested_of_nodup (h : (holdings.map Holding.path).Nodup) (path : π) :
    ¬ Contested holdings path := by
  rintro ⟨a, ha, b, hb, hpath, hpath', hne⟩
  have he : a = b := List.inj_on_of_nodup_map h ha hb (hpath.trans hpath'.symm)
  exact hne (congrArg Holding.place he)

variable [DecidableEq π]

theorem holds_eq_true_iff {place : String} :
    holds holdings path place = true ↔ ∃ h ∈ holdings, h.path = path ∧ h.place = place := by
  unfold holds
  simp only [List.any_eq_true, Bool.and_eq_true, decide_eq_true_eq, beq_iff_eq]

theorem strays_place (holdings : List (Holding π)) (path : π) (q : String)
    (rest : List (π × Claim)) : strays holdings ((path, .place q) :: rest) =
      if holds holdings path q then strays holdings rest else path :: strays holdings rest := rfl

theorem mem_strays_iff {l : List (π × Claim)} :
    path ∈ strays holdings l ↔ ∃ q, (path, Claim.place q) ∈ l ∧ holds holdings path q = false := by
  induction l with
  | nil => simp [strays]
  | cons e rest ih =>
    obtain ⟨k, claim⟩ := e
    -- only a claim for a place that does not hold the path adds a stray
    have hsplit : path ∈ strays holdings ((k, claim) :: rest) ↔
        (∃ q, claim = .place q ∧ holds holdings k q = false ∧ path = k) ∨
          path ∈ strays holdings rest := by
      cases claim with
      | free => simp [strays]
      | broken => simp [strays]
      | place q =>
        rw [strays_place]
        by_cases hq : holds holdings k q = true <;> simp [hq]
    rw [hsplit, ih]
    constructor
    · rintro (⟨q, rfl, hq, rfl⟩ | ⟨q, hmem, hq⟩)
      · exact ⟨q, List.mem_cons_self .., hq⟩
      · exact ⟨q, List.mem_cons_of_mem _ hmem, hq⟩
    · rintro ⟨q, hmem, hq⟩
      rcases List.mem_cons.mp hmem with he | hold
      · cases he
        exact Or.inl ⟨q, rfl, hq, rfl⟩
      · exact Or.inr ⟨q, hold, hq⟩

variable [LT π] [DecidableLT π] [KeyOrder π]

/-! ## Holders -/

theorem has_foldl_addHolder (l : List (Holding π)) (m : SortedMap π (SortedSet String))
    (place : String) :
    SortedSet.has (((l.foldl addHolder m).get? path).getD SortedMap.empty) place = true ↔
      (∃ h ∈ l, h.path = path ∧ h.place = place) ∨
        SortedSet.has ((m.get? path).getD SortedMap.empty) place = true := by
  induction l generalizing m with
  | nil => simp
  | cons h rest ih =>
    have hstep : SortedSet.has (((addHolder m h).get? path).getD SortedMap.empty) place = true ↔
        h.path = path ∧ h.place = place ∨
          SortedSet.has ((m.get? path).getD SortedMap.empty) place = true := by
      unfold addHolder
      rw [SortedMap.get?_insert]
      split
      · rename_i hp
        rw [Option.getD_some, SortedSet.has_add, hp]
        simp
      · rename_i hp
        simp [hp]
    rw [List.foldl_cons, ih, hstep, ← or_assoc]
    simp only [List.mem_cons, or_and_right, exists_or, exists_eq_left]
    rw [or_comm (a := ∃ h ∈ rest, _)]

/-- The holders of a path are the places that hold it. -/
theorem mem_holders_iff {place : String} :
    place ∈ SortedSet.members (((holders holdings).get? path).getD SortedMap.empty) ↔
      ∃ h ∈ holdings, h.path = path ∧ h.place = place := by
  unfold holders
  rw [SortedSet.mem_members_iff, has_foldl_addHolder]
  simp [SortedSet.has, SortedMap.contains]

theorem one_lt_length_iff {α : Type} {l : List α} (hl : l.Nodup) :
    1 < l.length ↔ ∃ a ∈ l, ∃ b ∈ l, a ≠ b := by
  constructor
  · intro h
    match l, hl with
    | a :: b :: _, hl =>
      rw [List.nodup_cons] at hl
      refine ⟨a, by simp, b, by simp, ?_⟩
      rintro rfl
      exact hl.1 (List.mem_cons_self ..)
  · rintro ⟨a, ha, b, hb, hne⟩
    match l with
    | [c] =>
      rw [List.mem_singleton] at ha hb
      exact absurd (ha.trans hb.symm) hne
    | _ :: _ :: _ => simp

theorem one_lt_holders_iff :
    1 < (SortedSet.members (((holders holdings).get? path).getD SortedMap.empty)).length ↔
      Contested holdings path := by
  have hnodup : (SortedSet.members
      (((holders holdings).get? path).getD SortedMap.empty)).Nodup := SortedMap.keys_nodup _
  rw [one_lt_length_iff hnodup]
  constructor
  · rintro ⟨a, ha, b, hb, hne⟩
    obtain ⟨h, hh, hpath, rfl⟩ := mem_holders_iff.mp ha
    obtain ⟨h', hh', hpath', rfl⟩ := mem_holders_iff.mp hb
    exact ⟨h, hh, h', hh', hpath, hpath', hne⟩
  · rintro ⟨h, hh, h', hh', hpath, hpath', hne⟩
    exact ⟨_, mem_holders_iff.mpr ⟨h, hh, hpath, rfl⟩, _,
      mem_holders_iff.mpr ⟨h', hh', hpath', rfl⟩, hne⟩

theorem isContested_eq_true_iff :
    isContested (holders holdings) path = true ↔ Contested holdings path := by
  rw [← one_lt_holders_iff]
  unfold isContested
  cases (holders holdings).get? path with
  | none => simp [SortedSet.members, SortedMap.keys]
  | some places => simp

/-! ## The parts of a plan -/

variable {published : SortedMap π Claim} {place : String}

theorem mem_release_iff :
    path ∈ (make published holdings).release ↔ ∃ q, published.get? path = some (.place q) ∧
      ∀ h ∈ holdings, h.path = path → h.place ≠ q := by
  have hnot : ∀ q, holds holdings path q = false ↔ ∀ h ∈ holdings, h.path = path → h.place ≠ q := by
    intro q
    rw [← Bool.not_eq_true, holds_eq_true_iff]
    simp
  show path ∈ strays holdings published.toList ↔ _
  rw [mem_strays_iff]
  simp only [SortedMap.mem_toList_iff, hnot]

theorem mem_remedies_iff {r : Holding π × Bool × Bool} :
    r ∈ remedies published holdings ↔ r.1 ∈ holdings ∧ ¬ Contested holdings r.1.path ∧
      ∃ claim, published.get? r.1.path = some claim ∧ r.2 = remedy claim r.1 := by
  unfold remedies
  simp only [List.mem_filterMap, List.mem_filter, Bool.not_eq_true', ← Bool.not_eq_true,
    isContested_eq_true_iff, Option.map_eq_some_iff]
  constructor
  · rintro ⟨h, ⟨hh, hsole⟩, claim, hclaim, rfl⟩
    exact ⟨hh, hsole, claim, hclaim, rfl⟩
  · rintro ⟨hh, hsole, claim, hclaim, he⟩
    exact ⟨r.1, ⟨hh, hsole⟩, claim, hclaim, Prod.ext rfl he.symm⟩

theorem mem_acquire_iff :
    (path, place) ∈ (make published holdings).acquire ↔ published.get? path = some .free ∧
      ¬ Contested holdings path ∧ ∃ h ∈ holdings, h.path = path ∧ h.place = place := by
  unfold make
  simp only [List.mem_map, List.mem_filter, mem_remedies_iff]
  constructor
  · rintro ⟨r, ⟨⟨hr, hsole, claim, hclaim, he⟩, hacquire⟩, hp⟩
    cases hp
    rw [he] at hacquire
    cases claim with
    | free => exact ⟨hclaim, hsole, r.1, hr, rfl, rfl⟩
    | place _ => cases hacquire
    | broken => cases hacquire
  · rintro ⟨hfree, hsole, h, hh, rfl, rfl⟩
    exact ⟨(h, remedy .free h), ⟨⟨hh, hsole, .free, hfree, rfl⟩, rfl⟩, rfl⟩

theorem mem_replace_iff :
    (path, place) ∈ (make published holdings).replace ↔
      (published.get? path = some .free ∨ published.get? path = some (.place place)) ∧
      ¬ Contested holdings path ∧
        ∃ h ∈ holdings, h.path = path ∧ h.place = place ∧ h.orphaned = true := by
  unfold make
  simp only [List.mem_map, List.mem_filter, mem_remedies_iff]
  constructor
  · rintro ⟨r, ⟨⟨hr, hsole, claim, hclaim, he⟩, hreplace⟩, hp⟩
    cases hp
    rw [he] at hreplace
    cases claim with
    | free => exact ⟨Or.inl hclaim, hsole, r.1, hr, rfl, rfl, hreplace⟩
    | place q =>
      have hboth : (q == r.1.place && r.1.orphaned) = true := hreplace
      rw [Bool.and_eq_true, beq_iff_eq] at hboth
      rw [hboth.1] at hclaim
      exact ⟨Or.inr hclaim, hsole, r.1, hr, rfl, rfl, hboth.2⟩
    | broken => cases hreplace
  · rintro ⟨hclaim, hsole, h, hh, rfl, rfl, horphaned⟩
    rcases hclaim with hfree | hheld
    · exact ⟨(h, remedy .free h), ⟨⟨hh, hsole, .free, hfree, rfl⟩, horphaned⟩, rfl⟩
    · refine ⟨(h, remedy (.place h.place) h), ⟨⟨hh, hsole, .place h.place, hheld, rfl⟩, ?_⟩, rfl⟩
      simp [remedy, horphaned]

theorem mem_conflicts_iff {names : List String} :
    (path, names) ∈ (make published holdings).conflicts ↔ Contested holdings path ∧
      names = SortedSet.members (((holders holdings).get? path).getD SortedMap.empty) := by
  unfold make
  simp only [List.mem_map, List.mem_filter, decide_eq_true_eq]
  constructor
  · rintro ⟨e, ⟨he, hlt⟩, hp⟩
    cases hp
    have hget : (holders holdings).get? e.1 = some e.2 := SortedMap.mem_toList_iff.mp he
    refine ⟨one_lt_holders_iff.mp ?_, ?_⟩ <;> rw [hget]
    · exact hlt
    · rfl
  · rintro ⟨hcontested, rfl⟩
    have hlt := one_lt_holders_iff.mpr hcontested
    cases hget : (holders holdings).get? path with
    | none =>
      rw [hget] at hlt
      simp [SortedSet.members, SortedMap.keys] at hlt
    | some places =>
      rw [hget] at hlt
      exact ⟨(path, places), ⟨SortedMap.mem_toList_iff.mpr hget, hlt⟩, rfl⟩

/-! ## Paths -/

theorem mem_map_acquire_iff :
    path ∈ (make published holdings).acquire.map Prod.fst ↔ published.get? path = some .free ∧
      ¬ Contested holdings path ∧ ∃ h ∈ holdings, h.path = path := by
  constructor
  · intro hmem
    obtain ⟨⟨_, place⟩, he, rfl⟩ := List.mem_map.mp hmem
    obtain ⟨hfree, hsole, h, hh, hpath, _⟩ := mem_acquire_iff.mp he
    exact ⟨hfree, hsole, h, hh, hpath⟩
  · rintro ⟨hfree, hsole, h, hh, rfl⟩
    exact List.mem_map.mpr ⟨(h.path, h.place),
      mem_acquire_iff.mpr ⟨hfree, hsole, h, hh, rfl, rfl⟩, rfl⟩

theorem mem_map_replace_iff :
    path ∈ (make published holdings).replace.map Prod.fst ↔ ¬ Contested holdings path ∧
      ∃ h ∈ holdings, h.path = path ∧ h.orphaned = true ∧
        (published.get? path = some .free ∨ published.get? path = some (.place h.place)) := by
  constructor
  · intro hmem
    obtain ⟨⟨_, place⟩, he, rfl⟩ := List.mem_map.mp hmem
    obtain ⟨hclaim, hsole, h, hh, hpath, rfl, horphaned⟩ := mem_replace_iff.mp he
    exact ⟨hsole, h, hh, hpath, horphaned, hclaim⟩
  · rintro ⟨hsole, h, hh, rfl, horphaned, hclaim⟩
    exact List.mem_map.mpr ⟨(h.path, h.place),
      mem_replace_iff.mpr ⟨hclaim, hsole, h, hh, rfl, rfl, horphaned⟩, rfl⟩

/-- What is released is held by nobody under the claimed name, so it is not commanded otherwise. -/
theorem release_apart (h : path ∈ (make published holdings).release) :
    path ∉ (make published holdings).acquire.map Prod.fst ∧
      path ∉ (make published holdings).replace.map Prod.fst := by
  obtain ⟨q, hclaim, hnone⟩ := mem_release_iff.mp h
  rw [mem_map_acquire_iff, mem_map_replace_iff, hclaim]
  refine ⟨fun hacquire => (nomatch hacquire.1), ?_⟩
  rintro ⟨_, h, hh, hpath, _, hfree | hheld⟩
  · cases hfree
  · cases hheld
    exact hnone h hh hpath rfl

/-! ## Distinct entries -/

theorem nodup_release : (make published holdings).release.Nodup := by
  have hsub : ∀ l : List (π × Claim), (strays holdings l).Sublist (l.map Prod.fst) := by
    intro l
    induction l with
    | nil => exact .slnil
    | cons e rest ih =>
      obtain ⟨k, claim⟩ := e
      cases claim with
      | place q =>
        rw [strays_place]
        split
        · exact ih.cons _
        · exact ih.cons_cons _
      | _ => exact ih.cons _
  exact published.keys_nodup.sublist (hsub _)

/-- Planned commands are in the order of the holdings, at most one for each. -/
theorem remedied_sublist (keep : Holding π × Bool × Bool → Bool) :
    (((remedies published holdings).filter keep).map (fun r => (r.1.path, r.1.place))).Sublist
      (holdings.map (fun h => (h.path, h.place))) := by
  have hsub : ∀ l : List (Holding π),
      ((l.filterMap (fun h => (published.get? h.path).map (fun claim => (h, remedy claim h)))).map
        (fun r => (r.1.path, r.1.place))).Sublist (l.map (fun h => (h.path, h.place))) := by
    intro l
    induction l with
    | nil => exact .slnil
    | cons a rest ih =>
      rw [List.filterMap_cons]
      cases published.get? a.path with
      | none => exact ih.cons _
      | some claim => exact ih.cons_cons _
  exact (List.filter_sublist.map _).trans ((hsub _).trans (List.filter_sublist.map _))

theorem acquire_sublist : (make published holdings).acquire.Sublist
    (holdings.map (fun h => (h.path, h.place))) :=
  remedied_sublist (fun r => r.2.1)

theorem replace_sublist : (make published holdings).replace.Sublist
    (holdings.map (fun h => (h.path, h.place))) :=
  remedied_sublist (fun r => r.2.2)

theorem nodup_acquire (h : (holdings.map Holding.path).Nodup) :
    ((make published holdings).acquire.map Prod.fst).Nodup := by
  refine List.Nodup.sublist (acquire_sublist.map Prod.fst) ?_
  rw [List.map_map]
  exact h

theorem nodup_replace (h : (holdings.map Holding.path).Nodup) :
    ((make published holdings).replace.map Prod.fst).Nodup := by
  refine List.Nodup.sublist (replace_sublist.map Prod.fst) ?_
  rw [List.map_map]
  exact h

theorem nodup_conflicts : ((make published holdings).conflicts.map Prod.fst).Nodup := by
  unfold make
  dsimp only
  rw [List.map_map]
  exact (holders holdings).keys_nodup.sublist (List.filter_sublist.map _)

end BoardFarm.DriftPlan
