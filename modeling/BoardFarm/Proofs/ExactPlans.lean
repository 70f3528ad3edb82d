import BoardFarm.Proofs.DriftPlans

/-!
# Exact plans

A plan says what is to be done, all of it and nothing else: about each path no more than one thing,
but for a handle that is replaced behind its acquisition. A plan is empty just if the exporters and
the places agree.

* `DriftPlan.Exact`: what is in a plan, and what never is.
* `DriftPlan.isEmpty_make_iff`: when nothing is planned.
* `DriftPlan.exact_make`: every plan is exact.
-/

namespace BoardFarm.DriftPlan

variable {π : Type} {holdings : List (Holding π)}

theorem isEmpty_eq_true_iff {plan : DriftPlan π} : plan.isEmpty = true ↔
    (∀ path, path ∉ plan.release) ∧ (∀ path, path ∉ plan.acquire.map Prod.fst) ∧
      (∀ path, path ∉ plan.replace.map Prod.fst) ∧ ∀ path, path ∉ plan.conflicts.map Prod.fst := by
  unfold isEmpty
  simp only [Bool.and_eq_true, List.isEmpty_iff, and_assoc, ← List.eq_nil_iff_forall_not_mem,
    List.map_eq_nil_iff]

/-- Entries of uncontested paths differ in their paths. -/
theorem nodup_map_fst (holdings : List (Holding π)) {entries : List (π × String)}
    (hnodup : entries.Nodup)
    (hsole : ∀ e ∈ entries, ¬ Contested holdings e.1 ∧
      ∃ h ∈ holdings, h.path = e.1 ∧ h.place = e.2) : (entries.map Prod.fst).Nodup := by
  refine hnodup.map_on ?_
  intro a ha b hb hpath
  obtain ⟨hnot, h, hh, hpa, hplace⟩ := hsole a ha
  obtain ⟨_, h', hh', hpb, hplace'⟩ := hsole b hb
  refine Prod.ext hpath ?_
  by_contra hne
  exact hnot ⟨h, hh, h', hh', hpa, hpb.trans hpath.symm, by rwa [hplace, hplace']⟩

variable [DecidableEq π] [LT π] [DecidableLT π] [KeyOrder π] {published : SortedMap π Claim}
  {path : π}

/-! ## Paths -/

theorem mem_map_conflicts_iff :
    path ∈ (make published holdings).conflicts.map Prod.fst ↔ Contested holdings path := by
  constructor
  · intro hmem
    obtain ⟨⟨_, names⟩, he, rfl⟩ := List.mem_map.mp hmem
    exact (mem_conflicts_iff.mp he).1
  · intro hcontested
    exact List.mem_map.mpr ⟨(path, _), mem_conflicts_iff.mpr ⟨hcontested, rfl⟩, rfl⟩

/-- The places of a conflict are the holders of its path, each of them once. -/
theorem holders_of_mem_conflicts {names : List String}
    (h : (path, names) ∈ (make published holdings).conflicts) :
    names.Nodup ∧ ∀ place, place ∈ names ↔ ∃ h ∈ holdings, h.path = path ∧ h.place = place := by
  obtain ⟨_, rfl⟩ := mem_conflicts_iff.mp h
  exact ⟨SortedMap.keys_nodup _, fun _ => mem_holders_iff⟩

/-- Only a published path that is not broken and has one holder is acquired or replaced. -/
theorem sole_of_planned (h : path ∈ (make published holdings).acquire.map Prod.fst ∨
    path ∈ (make published holdings).replace.map Prod.fst) :
    ¬ Contested holdings path ∧ ∃ claim, published.get? path = some claim ∧ claim ≠ .broken := by
  rcases h with hacquire | hreplace
  · obtain ⟨hfree, hsole, _⟩ := mem_map_acquire_iff.mp hacquire
    exact ⟨hsole, .free, hfree, Claim.noConfusion⟩
  · obtain ⟨hsole, h, _, _, _, hfree | hheld⟩ := mem_map_replace_iff.mp hreplace
    · exact ⟨hsole, .free, hfree, Claim.noConfusion⟩
    · exact ⟨hsole, .place h.place, hheld, Claim.noConfusion⟩

/-! ## Repeated paths -/

theorem nodup_of_distinct (h : (holdings.map (fun h => (h.path, h.place))).Nodup) :
    ((make published holdings).acquire.map Prod.fst).Nodup ∧
      ((make published holdings).replace.map Prod.fst).Nodup := by
  constructor
  · refine nodup_map_fst holdings (h.sublist acquire_sublist) ?_
    rintro ⟨path, place⟩ he
    exact (mem_acquire_iff.mp he).2
  · refine nodup_map_fst holdings (h.sublist replace_sublist) ?_
    rintro ⟨path, place⟩ he
    obtain ⟨_, hsole, h, hh, hpath, hplace, _⟩ := mem_replace_iff.mp he
    exact ⟨hsole, h, hh, hpath, hplace⟩

/-! ## Empty plans -/

/-- Nothing is to be done about a path with what is said of it. -/
def Converged (holdings : List (Holding π)) (path : π) (claim : Claim) : Prop :=
  claim = .broken ∨ claim = .free ∧ (∀ h ∈ holdings, h.path ≠ path) ∨
    ∃ q, claim = .place q ∧ (∃ h ∈ holdings, h.path = path ∧ h.place = q) ∧
      ∀ h ∈ holdings, h.path = path → h.orphaned = false

/-- A plan is empty just if no path has two holders, and nothing is to be done about any published
path. -/
theorem isEmpty_make_iff : (make published holdings).isEmpty = true ↔
    (∀ path, ¬ Contested holdings path) ∧
      ∀ path claim, published.get? path = some claim → Converged holdings path claim := by
  simp only [isEmpty_eq_true_iff, mem_release_iff, mem_map_acquire_iff, mem_map_replace_iff,
    mem_map_conflicts_iff]
  constructor
  · rintro ⟨hrelease, hacquire, hreplace, hsole⟩
    refine ⟨hsole, fun path claim hclaim => ?_⟩
    cases claim with
    | broken => exact Or.inl rfl
    | free =>
      refine Or.inr (Or.inl ⟨rfl, fun h hh hpath => ?_⟩)
      exact hacquire path ⟨hclaim, hsole path, h, hh, hpath⟩
    | place q =>
      obtain ⟨h, hh, hpath, rfl⟩ : ∃ h ∈ holdings, h.path = path ∧ h.place = q := by
        by_contra hnone
        exact hrelease path ⟨q, hclaim, fun h hh hpath hplace => hnone ⟨h, hh, hpath, hplace⟩⟩
      refine Or.inr (Or.inr ⟨h.place, rfl, ⟨h, hh, hpath, rfl⟩, fun h' hh' hpath' => ?_⟩)
      -- another holding of the path is one of the same place
      have hsame : h'.place = h.place := by
        by_contra hne
        exact hsole path ⟨h', hh', h, hh, hpath', hpath, hne⟩
      rw [← Bool.not_eq_true]
      exact fun horphaned =>
        hreplace path ⟨hsole path, h', hh', hpath', horphaned, Or.inr (hsame ▸ hclaim)⟩
  · rintro ⟨hsole, hconverged⟩
    refine ⟨?_, ?_, ?_, hsole⟩
    · rintro path ⟨q, hclaim, hnone⟩
      rcases hconverged path _ hclaim with hb | ⟨hf, _⟩ | ⟨q', hq, ⟨h, hh, hpath, hplace⟩, _⟩
      · cases hb
      · cases hf
      · cases hq
        exact hnone h hh hpath hplace
    · rintro path ⟨hfree, _, h, hh, hpath⟩
      rcases hconverged path _ hfree with hb | ⟨_, hnone⟩ | ⟨q, hq, _⟩
      · cases hb
      · exact hnone h hh hpath
      · cases hq
    · rintro path ⟨_, h, hh, hpath, horphaned, hclaim⟩
      have hnot : ∀ claim, published.get? path = some claim → claim ≠ .broken →
          ∀ h ∈ holdings, h.path = path → h.orphaned = false := by
        intro claim hclaim hne h hh hpath
        rcases hconverged path _ hclaim with hb | ⟨_, hnone⟩ | ⟨_, _, _, hfresh⟩
        · exact absurd hb hne
        · exact absurd hpath (hnone h hh)
        · exact hfresh h hh hpath
      have hfresh : h.orphaned = false := by
        rcases hclaim with hfree | hheld
        · exact hnot _ hfree Claim.noConfusion h hh hpath
        · exact hnot _ hheld Claim.noConfusion h hh hpath
      rw [hfresh] at horphaned
      cases horphaned

/-! ## Exactness -/

/-- What is in the plan for a set of claims and a list of holdings, and what never is. -/
structure Exact (published : SortedMap π Claim) (holdings : List (Holding π))
    (plan : DriftPlan π) : Prop where
  /-- A path is released just if it is claimed for a place and not held by this place. -/
  release : ∀ path, path ∈ plan.release ↔
    ∃ q, published.get? path = some (.place q) ∧ ¬ ∃ h ∈ holdings, h.path = path ∧ h.place = q
  /-- A path is acquired just if it is free and has one holder, for this holder. -/
  acquire : ∀ path place, (path, place) ∈ plan.acquire ↔ published.get? path = some .free ∧
    ¬ Contested holdings path ∧ ∃ h ∈ holdings, h.path = path ∧ h.place = place
  /-- A handle is replaced just if it is orphaned, and its path has one holder and is published as
  free or for this holder. -/
  replace : ∀ path place, (path, place) ∈ plan.replace ↔
    (published.get? path = some .free ∨ published.get? path = some (.place place)) ∧
      ¬ Contested holdings path ∧
        ∃ h ∈ holdings, h.path = path ∧ h.place = place ∧ h.orphaned = true
  /-- A path is in conflict just if two places hold it, and then once. -/
  conflicts : ∀ path, (plan.conflicts.map Prod.fst).count path = 1 ↔ Contested holdings path
  /-- The places of a conflict are those that hold the path. -/
  holders : ∀ path names, (path, names) ∈ plan.conflicts →
    names.Nodup ∧ ∀ place, place ∈ names ↔ ∃ h ∈ holdings, h.path = path ∧ h.place = place
  /-- No path is both released and acquired or replaced. -/
  apart : ∀ path ∈ plan.release,
    path ∉ plan.acquire.map Prod.fst ∧ path ∉ plan.replace.map Prod.fst
  /-- No path that is broken, not published or held by two places is acquired or replaced. -/
  sole : ∀ path, path ∈ plan.acquire.map Prod.fst ∨ path ∈ plan.replace.map Prod.fst →
    ¬ Contested holdings path ∧ ∃ claim, published.get? path = some claim ∧ claim ≠ .broken
  /-- Conflicts and releases are never repeated. -/
  nodup : plan.release.Nodup ∧ (plan.conflicts.map Prod.fst).Nodup
  /-- Distinct holdings are not commanded twice. -/
  nodup_of_distinct : (holdings.map (fun h => (h.path, h.place))).Nodup →
    (plan.acquire.map Prod.fst).Nodup ∧ (plan.replace.map Prod.fst).Nodup
  /-- The plan is empty just if nothing is to be done. -/
  isEmpty : plan.isEmpty = true ↔ (∀ path, ¬ Contested holdings path) ∧
    ∀ path claim, published.get? path = some claim → Converged holdings path claim

/-- Every plan is exact. -/
theorem exact_make (published : SortedMap π Claim) (holdings : List (Holding π)) :
    Exact published holdings (make published holdings) where
  release path := by
    rw [mem_release_iff]
    simp only [not_exists, not_and, ne_eq]
  acquire _ _ := mem_acquire_iff
  replace _ _ := mem_replace_iff
  conflicts path := by
    rw [nodup_conflicts.count]
    split
    · rename_i hmem
      exact iff_of_true rfl (mem_map_conflicts_iff.mp hmem)
    · rename_i hnot
      exact iff_of_false Nat.zero_ne_one (fun h => hnot (mem_map_conflicts_iff.mpr h))
  holders _ _ h := holders_of_mem_conflicts h
  apart _ h := release_apart h
  sole _ h := sole_of_planned h
  nodup := ⟨nodup_release, nodup_conflicts⟩
  nodup_of_distinct h := nodup_of_distinct h
  isEmpty := isEmpty_make_iff

/-- What is said of five resources: a stray, two free ones, one in use, and one that is broken. -/
def labClaims : SortedMap String Claim :=
  .ofList [("cam", .place "attic"), ("net", .free), ("relay", .place "desk"), ("usb", .free),
    ("volt", .broken)]

/-- What two places hold of them: both of them hold the port. -/
def labHoldings : List (Holding String) :=
  [⟨"desk", "net", false⟩, ⟨"desk", "relay", true⟩, ⟨"desk", "usb", false⟩, ⟨"rack", "usb", false⟩,
   ⟨"rack", "volt", true⟩]

/-- Nothing is commanded about the port that both places hold, or about the broken resource. -/
theorem exact_make_lab :
    (labHoldings.map (fun h => (h.path, h.place))).Nodup ∧
      make labClaims labHoldings =
        ⟨["cam"], [("net", "desk")], [("relay", "desk")], [("usb", ["desk", "rack"])]⟩ ∧
      Exact labClaims labHoldings
        ⟨["cam"], [("net", "desk")], [("relay", "desk")], [("usb", ["desk", "rack"])]⟩ ∧
      ((make labClaims labHoldings).acquire.map Prod.fst).Nodup := by
  have hdistinct : (labHoldings.map (fun h => (h.path, h.place))).Nodup := by decide
  have hexact := exact_make labClaims labHoldings
  have hplan : make labClaims labHoldings =
      ⟨["cam"], [("net", "desk")], [("relay", "desk")], [("usb", ["desk", "rack"])]⟩ := by
    decide +kernel
  exact ⟨hdistinct, hplan, hplan ▸ hexact, (hexact.nodup_of_distinct hdistinct).1⟩

end BoardFarm.DriftPlan
