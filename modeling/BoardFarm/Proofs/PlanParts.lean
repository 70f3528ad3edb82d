import BoardFarm.Proofs.ExactPlans

/-!
# Parts of plans

The part of a plan that is about one path is a plan of at most one command. Where no path is held
twice, it depends on the claim for the path and on its holding alone, whatever is said of other
paths.

* `DriftPlan.due`: what is to be done about a path, by its claim and its holding.
* `DriftPlan.part_make`: this is the part of a plan that is about the path.
-/

namespace BoardFarm

namespace DriftPlan

variable {π : Type}

/-- The plan in which there is nothing to do. -/
def nothing : DriftPlan π := ⟨[], [], [], []⟩

/-- What is to be done about a handle that may be orphaned. -/
def renewal (path : π) (h : Holding π) : List (π × String) :=
  if h.orphaned then [(path, h.place)] else []

/-- What is to be done about a path with what is said of it, and with its holding. -/
def due (path : π) : Option Claim → Option (Holding π) → DriftPlan π
  | some (.place q), some h =>
    if h.place = q then ⟨[], [], renewal path h, []⟩ else ⟨[path], [], [], []⟩
  | some (.place _), none => ⟨[path], [], [], []⟩
  | some .free, some h => ⟨[], [(path, h.place)], renewal path h, []⟩
  | some .free, none => nothing
  | some .broken, _ => nothing
  | none, _ => nothing

theorem mem_renewal_iff {path : π} {h : Holding π} {e : π × String} :
    e ∈ renewal path h ↔ h.orphaned = true ∧ e = (path, h.place) := by
  unfold renewal
  split
  · rename_i horphaned
    simp [horphaned]
  · rename_i hfresh
    simp [hfresh]

theorem length_renewal_le (path : π) (h : Holding π) : (renewal path h).length ≤ 1 := by
  unfold renewal
  split <;> simp

theorem release_due_free (path : π) (holder : Option (Holding π)) :
    (due path (some .free) holder).release = [] := by
  cases holder <;> rfl

/-- The lists of the table, by their elements. -/
theorem due_lists (path : π) (claim : Option Claim) (holder : Option (Holding π)) :
    ((due path claim holder).release.length ≤ 1 ∧ ∀ p, p ∈ (due path claim holder).release ↔
      p = path ∧ ∃ q, claim = some (.place q) ∧ ∀ h, holder = some h → h.place ≠ q) ∧
    ((due path claim holder).acquire.length ≤ 1 ∧ ∀ e, e ∈ (due path claim holder).acquire ↔
      claim = some .free ∧ ∃ h, holder = some h ∧ e = (path, h.place)) ∧
    ((due path claim holder).replace.length ≤ 1 ∧ ∀ e, e ∈ (due path claim holder).replace ↔
      ∃ h, holder = some h ∧ h.orphaned = true ∧ e = (path, h.place) ∧
        (claim = some .free ∨ claim = some (.place h.place))) ∧
    (due path claim holder).conflicts = [] := by
  cases claim with
  | none => simp [due, nothing]
  | some claim =>
    cases claim with
    | free => cases holder <;> simp [due, nothing, length_renewal_le, mem_renewal_iff]
    | broken => simp [due, nothing]
    | place q =>
      cases holder with
      | none => simp [due]
      | some h =>
        by_cases hq : h.place = q
        · subst hq
          simp [due, length_renewal_le, mem_renewal_iff]
        · simp [due, hq, Ne.symm hq]

/-- Distinct elements that are those of a list with one element at most. -/
theorem eq_of_length_le_one {α : Type} {l r : List α} (hl : l.Nodup) (hr : r.length ≤ 1)
    (h : ∀ x, x ∈ l ↔ x ∈ r) : l = r := by
  match r, hr with
  | [], _ => exact List.eq_nil_iff_forall_not_mem.mpr (fun x hx => List.not_mem_nil ((h x).mp hx))
  | [a], _ =>
    have hperm := (List.perm_ext_iff_of_nodup hl (List.nodup_singleton a)).mpr h
    exact List.perm_singleton.mp hperm

theorem eq_of_parts {a b : DriftPlan π} (hrelease : a.release = b.release)
    (hacquire : a.acquire = b.acquire) (hreplace : a.replace = b.replace)
    (hconflicts : a.conflicts = b.conflicts) : a = b := by
  cases a
  cases b
  simp_all

variable [DecidableEq π]

/-- The part of a plan that is about one path. -/
def part (path : π) (plan : DriftPlan π) : DriftPlan π where
  release := plan.release.filter (fun p => p = path)
  acquire := plan.acquire.filter (fun e => e.1 = path)
  replace := plan.replace.filter (fun e => e.1 = path)
  conflicts := plan.conflicts.filter (fun e => e.1 = path)

variable {plan : DriftPlan π} {path : π}

theorem mem_release_part_iff {p : π} :
    p ∈ (plan.part path).release ↔ p ∈ plan.release ∧ p = path := by
  simp [part]

theorem mem_acquire_part_iff {e : π × String} :
    e ∈ (plan.part path).acquire ↔ e ∈ plan.acquire ∧ e.1 = path := by
  simp [part]

theorem mem_replace_part_iff {e : π × String} :
    e ∈ (plan.part path).replace ↔ e ∈ plan.replace ∧ e.1 = path := by
  simp [part]

theorem part_eq_nothing_iff : plan.part path = nothing ↔
    path ∉ plan.release ∧ path ∉ plan.acquire.map Prod.fst ∧
      path ∉ plan.replace.map Prod.fst ∧ path ∉ plan.conflicts.map Prod.fst := by
  simp only [part, nothing, DriftPlan.mk.injEq, List.filter_eq_nil_iff, decide_eq_true_eq,
    List.mem_map, not_exists, not_and]
  refine and_congr_left' ⟨fun h hmem => h path hmem rfl, ?_⟩
  rintro h p hmem rfl
  exact h hmem

/-- The holding of a path. -/
def holder? (holdings : List (Holding π)) (path : π) : Option (Holding π) :=
  holdings.find? (fun h => h.path = path)

variable {holdings : List (Holding π)} {h : Holding π}

theorem holder?_eq_some_iff (hnodup : (holdings.map Holding.path).Nodup) :
    holder? holdings path = some h ↔ h ∈ holdings ∧ h.path = path := by
  unfold holder?
  constructor
  · intro hfind
    exact ⟨List.mem_of_find?_eq_some hfind, by simpa using List.find?_some hfind⟩
  · rintro ⟨hh, hpath⟩
    cases hfind : holdings.find? (fun h => h.path = path) with
    | none => simpa [hpath] using List.find?_eq_none.mp hfind h hh
    | some h' =>
      have hpath' : h'.path = path := by simpa using List.find?_some hfind
      rw [List.inj_on_of_nodup_map hnodup (List.mem_of_find?_eq_some hfind) hh
        (hpath'.trans hpath.symm)]

theorem holder?_eq_none_iff : holder? holdings path = none ↔ ∀ h ∈ holdings, h.path ≠ path := by
  simp [holder?]

variable [LT π] [DecidableLT π] [KeyOrder π] {published : SortedMap π Claim}

theorem mem_release_iff_of_nodup (hnodup : (holdings.map Holding.path).Nodup) :
    path ∈ (make published holdings).release ↔ ∃ q, published.get? path = some (.place q) ∧
      ∀ h, holder? holdings path = some h → h.place ≠ q := by
  rw [mem_release_iff]
  simp only [holder?_eq_some_iff hnodup, and_imp]

theorem mem_acquire_iff_of_nodup (hnodup : (holdings.map Holding.path).Nodup) {place : String} :
    (path, place) ∈ (make published holdings).acquire ↔ published.get? path = some .free ∧
      ∃ h, holder? holdings path = some h ∧ h.place = place := by
  rw [mem_acquire_iff]
  simp only [holder?_eq_some_iff hnodup, and_assoc, not_contested_of_nodup hnodup path,
    not_false_eq_true, true_and]

theorem mem_replace_iff_of_nodup (hnodup : (holdings.map Holding.path).Nodup) {place : String} :
    (path, place) ∈ (make published holdings).replace ↔
      (published.get? path = some .free ∨ published.get? path = some (.place place)) ∧
        ∃ h, holder? holdings path = some h ∧ h.place = place ∧ h.orphaned = true := by
  rw [mem_replace_iff]
  simp only [holder?_eq_some_iff hnodup, and_assoc, not_contested_of_nodup hnodup path,
    not_false_eq_true, true_and]

/-- What a plan says about a path depends on what is said of this path, and on its holding. -/
theorem part_make (hnodup : (holdings.map Holding.path).Nodup) :
    (make published holdings).part path =
      due path (published.get? path) (holder? holdings path) := by
  obtain ⟨⟨hrelease, hreleases⟩, ⟨hacquire, hacquires⟩, ⟨hreplace, hreplaces⟩, hconflicts⟩ :=
    due_lists path (published.get? path) (holder? holdings path)
  apply eq_of_parts
  · refine eq_of_length_le_one (nodup_release.filter _) hrelease (fun p => ?_)
    rw [mem_release_part_iff, hreleases, and_comm]
    refine and_congr_right (fun hp => ?_)
    rw [hp, mem_release_iff_of_nodup hnodup]
  · refine eq_of_length_le_one ((nodup_acquire hnodup).of_map.filter _) hacquire (fun e => ?_)
    obtain ⟨p, place⟩ := e
    rw [mem_acquire_part_iff, hacquires]
    constructor
    · rintro ⟨he, rfl⟩
      obtain ⟨hfree, h, hh, rfl⟩ := (mem_acquire_iff_of_nodup hnodup).mp he
      exact ⟨hfree, h, hh, rfl⟩
    · rintro ⟨hfree, h, hh, he⟩
      cases he
      exact ⟨(mem_acquire_iff_of_nodup hnodup).mpr ⟨hfree, h, hh, rfl⟩, rfl⟩
  · refine eq_of_length_le_one ((nodup_replace hnodup).of_map.filter _) hreplace (fun e => ?_)
    obtain ⟨p, place⟩ := e
    rw [mem_replace_part_iff, hreplaces]
    constructor
    · rintro ⟨he, rfl⟩
      obtain ⟨hclaim, h, hh, rfl, horphaned⟩ := (mem_replace_iff_of_nodup hnodup).mp he
      exact ⟨h, hh, horphaned, rfl, hclaim⟩
    · rintro ⟨h, hh, horphaned, he, hclaim⟩
      cases he
      exact ⟨(mem_replace_iff_of_nodup hnodup).mpr ⟨hclaim, h, hh, rfl, horphaned⟩, rfl⟩
  · rw [hconflicts]
    refine List.filter_eq_nil_iff.mpr (fun e he hpath => ?_)
    exact not_contested_of_nodup hnodup e.1 (mem_conflicts_iff.mp he).1

end DriftPlan

end BoardFarm
