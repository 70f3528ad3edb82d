import BoardFarm.Proofs.PlanParts
import Mathlib.Logic.Relation

/-!
# Handover

A command that is obeyed changes the claim for its path, and nothing about other paths. So a stray
that is released is left for its holder to acquire, an acquired resource is left alone, and what
failed is planned again: no pass undoes what an earlier one has done.

* `Situation.pass`: a pass of which some commands succeed.
* `Situation.part_pass`: what is planned for each path behind a pass.
* `Situation.Passes.obeyed_once`: no command that has succeeded is ever planned again.
* `Situation.isEmpty_of_two_passes`: two passes without failures leave nothing to do.
-/

namespace BoardFarm

/-- A command of a plan that an exporter has obeyed. -/
inductive Correction (π : Type) where
  | release (path : π)
  | acquire (path : π) (place : String)
  deriving DecidableEq, Repr

namespace Correction

variable {π : Type}

def path : Correction π → π
  | release path => path
  | acquire path _ => path

/-- What the exporter says of the path when it has obeyed. -/
def claim : Correction π → Claim
  | release _ => .free
  | acquire _ place => .place place

end Correction

namespace DriftPlan

variable {π : Type}

/-- The commands of a plan. -/
def corrections (plan : DriftPlan π) : List (Correction π) :=
  plan.release.map .release ++ plan.acquire.map (fun e => .acquire e.1 e.2)

theorem release_mem_corrections_iff {plan : DriftPlan π} {path : π} :
    .release path ∈ plan.corrections ↔ path ∈ plan.release := by
  simp [corrections]

theorem acquire_mem_corrections_iff {plan : DriftPlan π} {path : π} {place : String} :
    .acquire path place ∈ plan.corrections ↔ (path, place) ∈ plan.acquire := by
  simp [corrections]

variable [DecidableEq π]

/-- Whether a handle is replaced when some commands have been obeyed: as planned, but not when its
path was to be acquired and has not been. -/
def Renews (plan : DriftPlan π) (done : List (Correction π)) (h : Holding π) : Prop :=
  (h.path, h.place) ∈ plan.replace ∧
    ((h.path, h.place) ∈ plan.acquire → .acquire h.path h.place ∈ done)

instance (plan : DriftPlan π) (done : List (Correction π)) (h : Holding π) :
    Decidable (plan.Renews done h) := by
  unfold Renews
  infer_instance

/-- A holding when some commands have been obeyed. -/
def renew (plan : DriftPlan π) (done : List (Correction π)) (h : Holding π) : Holding π :=
  if plan.Renews done h then { h with orphaned := false } else h

variable {plan : DriftPlan π} {done : List (Correction π)}

theorem renew_of_not {h : Holding π} (hnot : ¬ plan.Renews done h) : plan.renew done h = h :=
  if_neg hnot

theorem path_renew (h : Holding π) : (plan.renew done h).path = h.path := by
  unfold renew
  split <;> rfl

theorem orphaned_renew {h : Holding π} (hrenews : h.orphaned = true → plan.Renews done h) :
    (plan.renew done h).orphaned = false := by
  unfold renew
  split
  · rfl
  · rename_i hnot
    rw [← Bool.not_eq_true]
    exact fun horphaned => hnot (hrenews horphaned)

theorem place_renew (h : Holding π) : (plan.renew done h).place = h.place := by
  unfold renew
  split <;> rfl

end DriftPlan

/-- What the exporters say of their resources, and what the places hold. -/
structure Situation (π : Type) [LT π] where
  published : SortedMap π Claim
  holdings : List (Holding π)

namespace Situation

open DriftPlan (holder? due part nothing renewal)

variable {π : Type} [LT π] [DecidableLT π] [KeyOrder π] [DecidableEq π]

def plan (s : Situation π) : DriftPlan π := .make s.published s.holdings

/-- What an exporter says when it has obeyed a command. -/
def obey (published : SortedMap π Claim) (c : Correction π) : SortedMap π Claim :=
  published.insert c.path c.claim

/-- A pass in which some commands of the plan are obeyed, and the others fail. -/
def pass (s : Situation π) (done : List (Correction π)) : Situation π where
  published := done.foldl obey s.published
  holdings := s.holdings.map (s.plan.renew done)

variable {s : Situation π} {done : List (Correction π)} {path : π}

theorem nodup_pass (hnodup : (s.holdings.map Holding.path).Nodup) :
    ((s.pass done).holdings.map Holding.path).Nodup := by
  have hsame : s.holdings.map (Holding.path ∘ s.plan.renew done) = s.holdings.map Holding.path :=
    List.map_congr_left (fun h _ => DriftPlan.path_renew h)
  unfold pass
  rw [List.map_map, hsame]
  exact hnodup

theorem holder?_pass : holder? (s.pass done).holdings path =
    (holder? s.holdings path).map (s.plan.renew done) := by
  unfold pass holder?
  rw [List.find?_map]
  congr 2
  funext h
  simp [DriftPlan.path_renew]

/-! ## One command for each path -/

/-- A plan has one command for a path at most. -/
theorem eq_of_mem_corrections (hnodup : (s.holdings.map Holding.path).Nodup) {c c' : Correction π}
    (hc : c ∈ s.plan.corrections) (hc' : c' ∈ s.plan.corrections) (hpath : c.path = c'.path) :
    c = c' := by
  have hboth : ∀ path place, .release path ∈ s.plan.corrections →
      .acquire path place ∉ s.plan.corrections := by
    intro path place hr ha
    refine (DriftPlan.release_apart (DriftPlan.release_mem_corrections_iff.mp hr)).1 ?_
    exact List.mem_map.mpr ⟨_, DriftPlan.acquire_mem_corrections_iff.mp ha, rfl⟩
  cases c with
  | release path =>
    cases c' with
    | release path' => exact congrArg Correction.release hpath
    | acquire path' place' =>
      cases hpath
      exact absurd hc' (hboth _ _ hc)
  | acquire path place =>
    cases c' with
    | release path' =>
      cases hpath
      exact absurd hc (hboth _ _ hc')
    | acquire path' place' =>
      cases hpath
      obtain ⟨_, h, hh, rfl⟩ := (DriftPlan.mem_acquire_iff_of_nodup hnodup).mp
        (DriftPlan.acquire_mem_corrections_iff.mp hc)
      obtain ⟨_, h', hh', rfl⟩ := (DriftPlan.mem_acquire_iff_of_nodup hnodup).mp
        (DriftPlan.acquire_mem_corrections_iff.mp hc')
      rw [hh] at hh'
      cases hh'
      rfl

theorem get?_foldl_obey_of_ne {m : SortedMap π Claim} (h : ∀ c ∈ done, c.path ≠ path) :
    (done.foldl obey m).get? path = m.get? path := by
  induction done generalizing m with
  | nil => rfl
  | cons c rest ih =>
    rw [List.foldl_cons, ih (fun c' hc' => h c' (List.mem_cons_of_mem _ hc'))]
    exact (SortedMap.get?_insert ..).trans (if_neg (h c (List.mem_cons_self ..)))

theorem get?_foldl_obey_of_mem {m : SortedMap π Claim} {c : Correction π} (hc : c ∈ done)
    (hsame : ∀ c' ∈ done, c'.path = c.path → c' = c) :
    (done.foldl obey m).get? c.path = some c.claim := by
  induction done generalizing m with
  | nil => cases hc
  | cons d rest ih =>
    by_cases hrest : c ∈ rest
    · exact ih hrest (fun c' hc' => hsame c' (List.mem_cons_of_mem _ hc'))
    · have hd : c = d := (List.mem_cons.mp hc).resolve_right hrest
      rw [List.foldl_cons, get?_foldl_obey_of_ne, ← hd]
      · exact (SortedMap.get?_insert ..).trans (if_pos rfl)
      · intro c' hc' hpath
        exact hrest (hsame c' (List.mem_cons_of_mem _ hc') hpath ▸ hc')

/-- What is said of a path behind a pass in which its command has been obeyed. -/
theorem get?_pass_of_mem (hnodup : (s.holdings.map Holding.path).Nodup)
    (hdone : ∀ c ∈ done, c ∈ s.plan.corrections) {c : Correction π} (hc : c ∈ done) :
    (s.pass done).published.get? c.path = some c.claim :=
  get?_foldl_obey_of_mem hc
    (fun c' hc' hpath => eq_of_mem_corrections hnodup (hdone c' hc') (hdone c hc) hpath)

/-! ## Behind a pass -/

theorem plan_part (hnodup : (s.holdings.map Holding.path).Nodup) (path : π) :
    s.plan.part path = due path (s.published.get? path) (holder? s.holdings path) :=
  DriftPlan.part_make hnodup

theorem plan_pass_part (hnodup : (s.holdings.map Holding.path).Nodup) (path : π) :
    (s.pass done).plan.part path = due path ((s.pass done).published.get? path)
      ((holder? s.holdings path).map (s.plan.renew done)) := by
  rw [plan_part (nodup_pass hnodup), holder?_pass]

/-- An acquired resource is left alone. -/
theorem part_of_acquired (hnodup : (s.holdings.map Holding.path).Nodup)
    (hdone : ∀ c ∈ done, c ∈ s.plan.corrections) {place : String}
    (h : .acquire path place ∈ done) : (s.pass done).plan.part path = nothing := by
  have hmem := DriftPlan.acquire_mem_corrections_iff.mp (hdone _ h)
  obtain ⟨hfree, held, hheld, rfl⟩ := (DriftPlan.mem_acquire_iff_of_nodup hnodup).mp hmem
  obtain ⟨_, hpath⟩ := (DriftPlan.holder?_eq_some_iff hnodup).mp hheld
  have hclaim : (s.pass done).published.get? path = some (.place held.place) :=
    get?_pass_of_mem hnodup hdone h
  have hfresh : (s.plan.renew done held).orphaned = false := by
    refine DriftPlan.orphaned_renew fun horphaned => ⟨?_, fun _ => hpath.symm ▸ h⟩
    rw [hpath]
    exact (DriftPlan.mem_replace_iff_of_nodup hnodup).mpr
      ⟨Or.inl hfree, held, hheld, rfl, horphaned⟩
  rw [plan_pass_part hnodup, hclaim, hheld]
  simp [due, DriftPlan.place_renew, renewal, hfresh, nothing]

/-- A path without a correction that is obeyed is said of as before. -/
theorem get?_pass_of_ne (h : ∀ c ∈ done, c.path ≠ path) :
    (s.pass done).published.get? path = s.published.get? path :=
  get?_foldl_obey_of_ne h

/-- A replaced handle is left alone, if this was all that was planned for its path. -/
theorem part_of_replaced (hnodup : (s.holdings.map Holding.path).Nodup)
    (hdone : ∀ c ∈ done, c ∈ s.plan.corrections)
    (hreplace : path ∈ s.plan.replace.map Prod.fst)
    (hacquire : path ∉ s.plan.acquire.map Prod.fst) :
    (s.pass done).plan.part path = nothing := by
  obtain ⟨⟨path, place⟩, hmem, rfl⟩ := List.mem_map.mp hreplace
  obtain ⟨hclaim, held, hheld, rfl, horphaned⟩ :=
    (DriftPlan.mem_replace_iff_of_nodup hnodup).mp hmem
  obtain ⟨_, hpath⟩ := (DriftPlan.holder?_eq_some_iff hnodup).mp hheld
  have hnot : ∀ place, (path, place) ∉ s.plan.acquire :=
    fun place he => hacquire (List.mem_map.mpr ⟨(path, place), he, rfl⟩)
  have hclaim : s.published.get? path = some (.place held.place) :=
    hclaim.resolve_left (fun hfree =>
      hnot held.place ((DriftPlan.mem_acquire_iff_of_nodup hnodup).mpr ⟨hfree, held, hheld, rfl⟩))
  have hidle : ∀ c ∈ done, c.path ≠ path := by
    rintro (p | ⟨p, place⟩) hc rfl
    · have hrelease := DriftPlan.release_mem_corrections_iff.mp (hdone _ hc)
      exact (DriftPlan.release_apart hrelease).2 hreplace
    · exact hnot place (DriftPlan.acquire_mem_corrections_iff.mp (hdone _ hc))
  have hfresh : (s.plan.renew done held).orphaned = false :=
    DriftPlan.orphaned_renew
      fun _ => ⟨hpath.symm ▸ hmem, fun he => absurd (hpath ▸ he) (hnot held.place)⟩
  rw [plan_pass_part hnodup, get?_pass_of_ne hidle, hclaim, hheld]
  simp [due, DriftPlan.place_renew, renewal, hfresh, nothing]

/-- A released path is left for its holder to acquire. -/
theorem part_of_released (hnodup : (s.holdings.map Holding.path).Nodup)
    (hdone : ∀ c ∈ done, c ∈ s.plan.corrections) (h : .release path ∈ done) :
    (s.pass done).plan.part path = due path (some .free) (holder? s.holdings path) := by
  have hrelease := DriftPlan.release_mem_corrections_iff.mp (hdone _ h)
  have hclaim : (s.pass done).published.get? path = some .free := get?_pass_of_mem hnodup hdone h
  have hsame : (holder? s.holdings path).map (s.plan.renew done) = holder? s.holdings path := by
    cases hheld : holder? s.holdings path with
    | none => rfl
    | some held =>
      obtain ⟨_, hpath⟩ := (DriftPlan.holder?_eq_some_iff hnodup).mp hheld
      refine congrArg some (DriftPlan.renew_of_not fun hrenews => ?_)
      refine (DriftPlan.release_apart hrelease).2 ?_
      exact List.mem_map.mpr ⟨_, hrenews.1, hpath⟩
  rw [plan_pass_part hnodup, hclaim, hsame]

/-- A path of which nothing has succeeded is planned for as before. -/
theorem part_of_idle (hnodup : (s.holdings.map Holding.path).Nodup)
    (hidle : ∀ c ∈ done, c.path ≠ path)
    (hreplace : path ∈ s.plan.replace.map Prod.fst → path ∈ s.plan.acquire.map Prod.fst) :
    (s.pass done).plan.part path = s.plan.part path := by
  have hsame : (holder? s.holdings path).map (s.plan.renew done) = holder? s.holdings path := by
    cases hheld : holder? s.holdings path with
    | none => rfl
    | some held =>
      obtain ⟨_, rfl⟩ := (DriftPlan.holder?_eq_some_iff hnodup).mp hheld
      refine congrArg some (DriftPlan.renew_of_not fun hrenews => ?_)
      obtain ⟨⟨path, place⟩, hmem, hpath⟩ :=
        List.mem_map.mp (hreplace (List.mem_map.mpr ⟨_, hrenews.1, rfl⟩))
      dsimp only at hpath
      subst hpath
      obtain ⟨_, held', hheld', rfl⟩ := (DriftPlan.mem_acquire_iff_of_nodup hnodup).mp hmem
      rw [hheld] at hheld'
      cases hheld'
      exact hidle _ (hrenews.2 hmem) rfl
  rw [plan_pass_part hnodup, get?_pass_of_ne hidle, hsame, plan_part hnodup]

/-- Behind a pass of which any commands have succeeded, nothing is planned for a path that has been
acquired or of which nothing but the handle has been replaced; a path that has been released is left
alone, or left for its holder to acquire; and for any other path the same is planned as before. -/
theorem part_pass (hnodup : (s.holdings.map Holding.path).Nodup)
    (hdone : ∀ c ∈ done, c ∈ s.plan.corrections) (path : π) :
    ((∃ place, .acquire path place ∈ done) → (s.pass done).plan.part path = nothing) ∧
    (path ∈ s.plan.replace.map Prod.fst → path ∉ s.plan.acquire.map Prod.fst →
      (s.pass done).plan.part path = nothing) ∧
    (.release path ∈ done →
      ((∀ h ∈ s.holdings, h.path ≠ path) → (s.pass done).plan.part path = nothing) ∧
      ∀ h ∈ s.holdings, h.path = path → (s.pass done).plan.part path =
        ⟨[], [(path, h.place)], if h.orphaned then [(path, h.place)] else [], []⟩) ∧
    ((∀ place, .acquire path place ∉ done) →
      ¬ (path ∈ s.plan.replace.map Prod.fst ∧ path ∉ s.plan.acquire.map Prod.fst) →
      .release path ∉ done → (s.pass done).plan.part path = s.plan.part path) := by
  refine ⟨?_, part_of_replaced hnodup hdone,
    fun h => ⟨fun hfree => ?_, fun held hh hpath => ?_⟩, ?_⟩
  · rintro ⟨place, h⟩
    exact part_of_acquired hnodup hdone h
  · rw [part_of_released hnodup hdone h, DriftPlan.holder?_eq_none_iff.mpr hfree]
    rfl
  · rw [part_of_released hnodup hdone h, (DriftPlan.holder?_eq_some_iff hnodup).mpr ⟨hh, hpath⟩]
    rfl
  · intro hacquire hreplace hrelease
    refine part_of_idle hnodup ?_ (fun hr => by_contra fun ha => hreplace ⟨hr, ha⟩)
    rintro (p | ⟨p, place⟩) hc rfl
    · exact hrelease hc
    · exact hacquire place hc

/-- What five resources are reported to be: two strays, two free ones, and one in order. -/
def relayRack : Situation String where
  published := .ofList [("cam", .place "ghost"), ("net", .place "ghost"), ("relay", .free),
    ("usb", .free), ("volt", .place "desk")]
  holdings := [⟨"desk", "net", true⟩, ⟨"desk", "relay", true⟩, ⟨"desk", "usb", false⟩,
    ⟨"desk", "volt", true⟩]

/-- Both strays are released, and one of the free resources is acquired. -/
theorem part_pass_relayRack :
    let done := [.release "cam", .release "net", .acquire "relay" "desk"]
    (relayRack.holdings.map Holding.path).Nodup ∧ (∀ c ∈ done, c ∈ relayRack.plan.corrections) ∧
      (relayRack.pass done).plan.part "cam" = nothing ∧
      (relayRack.pass done).plan.part "net" = ⟨[], [("net", "desk")], [("net", "desk")], []⟩ ∧
      (relayRack.pass done).plan.part "relay" = nothing ∧
      (relayRack.pass done).plan.part "usb" = ⟨[], [("usb", "desk")], [], []⟩ ∧
      (relayRack.pass done).plan.part "volt" = nothing := by
  intro done
  have hnodup : (relayRack.holdings.map Holding.path).Nodup := by decide
  have hdone : ∀ c ∈ done, c ∈ relayRack.plan.corrections := by decide +kernel
  have hpart := part_pass hnodup hdone
  refine ⟨hnodup, hdone, ?_, ?_, ?_, ?_, ?_⟩
  · exact ((hpart "cam").2.2.1 (by decide)).1 (by decide)
  · exact ((hpart "net").2.2.1 (by decide)).2 ⟨"desk", "net", true⟩ (by decide) rfl
  · exact (hpart "relay").1 ⟨"desk", by decide⟩
  · rw [(hpart "usb").2.2.2 (by simp [done]) (by decide +kernel) (by decide)]
    decide +kernel
  · exact (hpart "volt").2.1 (by decide +kernel) (by decide +kernel)

/-! ## Behind any number of passes -/

/-- What nothing is planned for is left alone. -/
theorem part_of_settled (hnodup : (s.holdings.map Holding.path).Nodup)
    (hdone : ∀ c ∈ done, c ∈ s.plan.corrections) (h : s.plan.part path = nothing) :
    (s.pass done).plan.part path = nothing := by
  obtain ⟨hrelease, hacquire, hreplace, _⟩ := DriftPlan.part_eq_nothing_iff.mp h
  rw [part_of_idle hnodup ?_ (fun hr => absurd hr hreplace), h]
  rintro (p | ⟨p, place⟩) hc rfl
  · exact hrelease (DriftPlan.release_mem_corrections_iff.mp (hdone _ hc))
  · have he := DriftPlan.acquire_mem_corrections_iff.mp (hdone _ hc)
    exact hacquire (List.mem_map.mpr ⟨_, he, rfl⟩)

theorem part_cases (hnodup : (s.holdings.map Holding.path).Nodup)
    (hdone : ∀ c ∈ done, c ∈ s.plan.corrections) (path : π) :
    (s.pass done).plan.part path = nothing ∨
      .release path ∈ done ∧
        (s.pass done).plan.part path = due path (some .free) (holder? s.holdings path) ∨
      .release path ∉ done ∧ (s.pass done).plan.part path = s.plan.part path := by
  by_cases hrelease : .release path ∈ done
  · exact Or.inr (Or.inl ⟨hrelease, part_of_released hnodup hdone hrelease⟩)
  · by_cases hacquire : ∃ place, .acquire path place ∈ done
    · obtain ⟨place, hc⟩ := hacquire
      exact Or.inl (part_of_acquired hnodup hdone hc)
    · by_cases hreplace : path ∈ s.plan.replace.map Prod.fst → path ∈ s.plan.acquire.map Prod.fst
      · refine Or.inr (Or.inr ⟨hrelease, part_of_idle hnodup ?_ hreplace⟩)
        rintro (p | ⟨p, place⟩) hc rfl
        · exact hrelease hc
        · exact hacquire ⟨place, hc⟩
      · rw [Classical.not_imp] at hreplace
        exact Or.inl (part_of_replaced hnodup hdone hreplace.1 hreplace.2)

/-- A pass makes no strays, and leaves those alone that could not be released. -/
theorem release_of_pass (hnodup : (s.holdings.map Holding.path).Nodup)
    (hdone : ∀ c ∈ done, c ∈ s.plan.corrections) (h : path ∈ (s.pass done).plan.release) :
    path ∈ s.plan.release ∧ .release path ∉ done := by
  have hpart := DriftPlan.mem_release_part_iff.mpr ⟨h, rfl⟩
  rcases part_cases hnodup hdone path with hnothing | ⟨_, hdue⟩ | ⟨hnot, hsame⟩
  · rw [hnothing] at hpart
    cases hpart
  · rw [hdue, DriftPlan.release_due_free] at hpart
    cases hpart
  · rw [hsame] at hpart
    exact ⟨(DriftPlan.mem_release_part_iff.mp hpart).1, hnot⟩

/-- Any number of passes, each of which may fail in part. -/
def Passes : Situation π → Situation π → Prop :=
  Relation.ReflTransGen
    (fun s s' => ∃ done, (∀ c ∈ done, c ∈ s.plan.corrections) ∧ s' = s.pass done)

variable {s' : Situation π}

theorem Passes.nodup (h : Passes s s') (hnodup : (s.holdings.map Holding.path).Nodup) :
    (s'.holdings.map Holding.path).Nodup := by
  induction h with
  | refl => exact hnodup
  | tail _ step ih =>
    obtain ⟨done, _, rfl⟩ := step
    exact nodup_pass ih

theorem Passes.settled (h : Passes s s') (hnodup : (s.holdings.map Holding.path).Nodup)
    (hpart : s.plan.part path = nothing) : s'.plan.part path = nothing := by
  induction h with
  | refl => exact hpart
  | tail hpasses step ih =>
    obtain ⟨done, hdone, rfl⟩ := step
    exact part_of_settled (Passes.nodup hpasses hnodup) hdone ih

theorem Passes.release (h : Passes s s') (hnodup : (s.holdings.map Holding.path).Nodup)
    (hrelease : path ∈ s'.plan.release) : path ∈ s.plan.release := by
  induction h with
  | refl => exact hrelease
  | tail hpasses step ih =>
    obtain ⟨done, hdone, rfl⟩ := step
    exact ih (release_of_pass (Passes.nodup hpasses hnodup) hdone hrelease).1

/-- What has been obeyed once is never commanded again. -/
theorem Passes.obeyed_once (hnodup : (s.holdings.map Holding.path).Nodup)
    (hdone : ∀ c ∈ done, c ∈ s.plan.corrections) (h : Passes (s.pass done) s')
    {c : Correction π} (hc : c ∈ done) : c ∉ s'.plan.corrections := by
  intro hagain
  cases c with
  | release path =>
    have hrelease := h.release (nodup_pass hnodup)
      (DriftPlan.release_mem_corrections_iff.mp hagain)
    exact (release_of_pass hnodup hdone hrelease).2 hc
  | acquire path place =>
    have hpart := h.settled (nodup_pass hnodup) (part_of_acquired hnodup hdone hc)
    have he := DriftPlan.acquire_mem_corrections_iff.mp hagain
    exact (DriftPlan.part_eq_nothing_iff.mp hpart).2.1 (List.mem_map.mpr ⟨_, he, rfl⟩)

/-- Two passes without failures leave nothing to do: the first releases the strays, and those that
are held are acquired by the second. -/
theorem isEmpty_of_two_passes (hnodup : (s.holdings.map Holding.path).Nodup)
    (hs' : s' = s.pass s.plan.corrections) :
    (s'.pass s'.plan.corrections).plan.isEmpty = true := by
  have hnodup' : (s'.holdings.map Holding.path).Nodup := hs' ▸ nodup_pass hnodup
  have hall : ∀ path, (s'.pass s'.plan.corrections).plan.part path = nothing := by
    intro path
    have hsettled : s'.plan.part path = nothing →
        (s'.pass s'.plan.corrections).plan.part path = nothing :=
      part_of_settled hnodup' (fun _ h => h)
    by_cases hacquire : path ∈ s.plan.acquire.map Prod.fst
    · obtain ⟨⟨path, place⟩, he, rfl⟩ := List.mem_map.mp hacquire
      have hc : .acquire path place ∈ s.plan.corrections :=
        DriftPlan.acquire_mem_corrections_iff.mpr he
      exact hsettled (hs' ▸ part_of_acquired hnodup (fun _ h => h) hc)
    · by_cases hrelease : path ∈ s.plan.release
      · have hpart : s'.plan.part path = due path (some .free) (holder? s.holdings path) :=
          hs' ▸ part_of_released hnodup (fun _ h => h)
            (DriftPlan.release_mem_corrections_iff.mpr hrelease)
        cases hheld : holder? s.holdings path with
        | none =>
          rw [hheld] at hpart
          exact hsettled hpart
        | some held =>
          have hmem : (path, held.place) ∈ (s'.plan.part path).acquire := by
            rw [hpart, hheld]
            exact List.mem_cons_self ..
          have hc : .acquire path held.place ∈ s'.plan.corrections :=
            DriftPlan.acquire_mem_corrections_iff.mpr (DriftPlan.mem_acquire_part_iff.mp hmem).1
          exact part_of_acquired hnodup' (fun _ h => h) hc
      · by_cases hreplace : path ∈ s.plan.replace.map Prod.fst
        · exact hsettled (hs' ▸ part_of_replaced hnodup (fun _ h => h) hreplace hacquire)
        · refine hsettled (hs' ▸ part_of_settled hnodup (fun _ h => h) ?_)
          refine DriftPlan.part_eq_nothing_iff.mpr ⟨hrelease, hacquire, hreplace, ?_⟩
          exact fun h => DriftPlan.not_contested_of_nodup hnodup path
            (DriftPlan.mem_map_conflicts_iff.mp h)
  exact DriftPlan.isEmpty_eq_true_iff.mpr
    ⟨fun path => (DriftPlan.part_eq_nothing_iff.mp (hall path)).1,
      fun path => (DriftPlan.part_eq_nothing_iff.mp (hall path)).2.1,
      fun path => (DriftPlan.part_eq_nothing_iff.mp (hall path)).2.2.1,
      fun path => (DriftPlan.part_eq_nothing_iff.mp (hall path)).2.2.2⟩

end Situation

end BoardFarm
