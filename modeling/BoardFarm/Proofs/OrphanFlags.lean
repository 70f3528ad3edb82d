import BoardFarm.Proofs.HandleOrigins

/-!
# Flags of orphans

A held handle that is flagged as an orphan is not published. The converse depends on the past.
The flag is decided when the handle leaves the tree, by the holder that its record names then,
and exporters may have reported the resource as free while a place holds it. So the flags are
exact but for the handles that were dropped while their records named no holder.

* `Hub.Chronicle`: the events between two hubs, in order.
* `Hub.Account`: what a chronicle says about a record.
* `Station.Course.orphaned_iff`: when the flag of a held handle is exact.
-/

namespace BoardFarm

namespace Hub

/-- The events on the way from one hub to another, each with the hub that it meets. Between them
tree and flags are left alone. -/
inductive Chronicle (start : Hub) : List (Hub × Event) → Hub → Prop
  | start : Chronicle start [] start
  | event {l : List (Hub × Event)} {hub : Hub} (h : Chronicle start l hub) (e : Event) :
      Chronicle start (l ++ [(hub, e)]) (hub.apply e)
  | aside {l : List (Hub × Event)} {hub hub' : Hub} (h : Chronicle start l hub)
      (ha : Aside hub hub') : Chronicle start l hub'

/-- With the event a handle with this record leaves the tree, and the record names no holder. -/
def DropsFree (hub : Hub) (e : Event) (serial : Nat) : Prop :=
  ∃ y, Drops hub (hub.apply e) y ∧ y.serial = serial ∧ hub.holder y = none

/-! ## Chronicles of passages -/

theorem Exchange.chronicle {tells : Bool} {start hub hub' : Hub} {attempts : List Attempt}
    (hx : Exchange tells hub attempts hub') (h : ∃ l, Chronicle start l hub) :
    ∃ l, Chronicle start l hub' := by
  induction hx with
  | refl => exact h
  | stir _ hs ih =>
    obtain ⟨l, hl⟩ := ih
    rcases hs.event_or_aside with ⟨e, rfl⟩ | ha
    · exact ⟨_, hl.event e⟩
    · exact ⟨l, hl.aside ha⟩
  | settle _ ih =>
    obtain ⟨l, hl⟩ := ih
    exact ⟨l, hl.aside (aside_settled tells _)⟩

theorem Passage.chronicle {o : Occasion} {tells : Bool} {start hub hub' : Hub}
    {attempts : List Attempt} (hp : Passage o tells hub attempts hub')
    (h : ∃ l, Chronicle start l hub) : ∃ l, Chronicle start l hub' := by
  induction hp with
  | refl => exact h
  | exchange _ hx ih => exact hx.chronicle ih
  | move _ hm _ ih =>
    obtain ⟨l, hl⟩ := ih
    exact ⟨l, hl.aside hm.aside⟩

/-! ## Accounts -/

/-- Either the handle with this record is published, and has been so ever since, or it has been
dropped, and the flag says whether the record named a holder then. -/
inductive Account (l : List (Hub × Event)) (hub : Hub) (x : Handle) : Prop
  | kept {y : Handle} (hy : y ∈ hub.published) (hserial : y.serial = x.serial)
      (hflag : hub.isOrphaned x = false)
      (hnever : ∀ e ∈ l, ∀ z, Drops e.1 (e.1.apply e.2) z → z.serial ≠ x.serial)
  | dropped {e : Hub × Event} {y : Handle} (he : e ∈ l) (hy : Drops e.1 (e.1.apply e.2) y)
      (hserial : y.serial = x.serial) (hgone : ∀ z ∈ hub.published, z.serial ≠ x.serial)
      (hflag : ∀ e ∈ l, ∀ z, Drops e.1 (e.1.apply e.2) z → z.serial = x.serial →
        (hub.isOrphaned x = true ↔ (e.1.holder z).isSome))

/-- Every record is accounted for, and nothing is dropped before its record is there. -/
structure Accounted (l : List (Hub × Event)) (hub : Hub) : Prop where
  filed : hub.Filed
  past : ∀ e ∈ l, ∀ z, Drops e.1 (e.1.apply e.2) z → z.serial < hub.records.size
  accounts : ∀ x : Handle, x.serial < hub.records.size → Account l hub x

theorem Account.aside {l : List (Hub × Event)} {hub hub' : Hub} {x : Handle}
    (h : Account l hub x) (ha : Aside hub hub') : Account l hub' x := by
  have hflag := ha.flags x
  cases h with
  | kept hy hserial hfree hnever =>
    exact .kept ((ha.published _).mpr hy) hserial (hflag.trans hfree) hnever
  | dropped he hy hserial hgone hflags =>
    refine .dropped he hy hserial (fun z hz => hgone z ((ha.published z).mp hz)) ?_
    rw [hflag]
    exact hflags

theorem forall_drops_append {l : List (Hub × Event)} {hub : Hub} {e : Event}
    {P : Hub × Event → Handle → Prop}
    (hpast : ∀ w ∈ l, ∀ z, Drops w.1 (w.1.apply w.2) z → P w z)
    (hnow : ∀ z, Drops hub (hub.apply e) z → P (hub, e) z) :
    ∀ w ∈ l ++ [(hub, e)], ∀ z, Drops w.1 (w.1.apply w.2) z → P w z := by
  intro w hw z hz
  rcases List.mem_append.mp hw with hold | hnew
  · exact hpast w hold z hz
  · cases List.mem_singleton.mp hnew
    exact hnow z hz

/-- An event drops what is published; what has been dropped before does not come back. -/
theorem Account.event {l : List (Hub × Event)} {hub : Hub} {x : Handle} (h : Account l hub x)
    (hf : hub.Filed) (e : Event) (hx : x.serial < hub.records.size) :
    Account (l ++ [(hub, e)]) (hub.apply e) x := by
  have ht := turnover_apply hf e
  have hold : ∀ z ∈ (hub.apply e).published, z.serial = x.serial → z ∈ hub.published :=
    fun z hz he => ht.old hz (by omega)
  cases h with
  | @kept y hy hserial hflag hnever =>
    -- only `y` has the record of `x`
    have honly : ∀ z ∈ hub.published, z.serial = x.serial → z = y :=
      fun z hz he => hf.distinct hz hy (he.trans hserial.symm)
    by_cases hstays : y ∈ (hub.apply e).published
    · have hnow : ∀ z, Drops hub (hub.apply e) z → z.serial ≠ x.serial :=
        fun z hz he => hz.2 (honly z hz.1 he ▸ hstays)
      have hflag' : (hub.apply e).isOrphaned x = false := by
        rw [← Bool.not_eq_true, ht.isOrphaned_of_stays hx hnow, Bool.not_eq_true]
        exact hflag
      exact .kept hstays hserial hflag' (forall_drops_append hnever hnow)
    · have hdrop : Drops hub (hub.apply e) y := ⟨hy, hstays⟩
      refine .dropped (List.mem_append_right _ (List.mem_singleton_self _)) hdrop hserial ?_ ?_
      · exact fun z hz he => hstays (honly z (hold z hz he) he ▸ hz)
      · refine forall_drops_append ?_ ?_
        · exact fun e' he' z hz he => absurd he (hnever e' he' z hz)
        · exact fun z hz he => ht.isOrphaned_of_drops hf hx hflag hz he
  | @dropped e' y he' hy hserial hgone hflag =>
    have hnow : ∀ z, Drops hub (hub.apply e) z → z.serial ≠ x.serial :=
      fun z hz => hgone z hz.1
    refine .dropped (List.mem_append_left _ he') hy hserial ?_ ?_
    · exact fun z hz he => hgone z (hold z hz he) he
    · rw [ht.isOrphaned_of_stays hx hnow]
      exact forall_drops_append hflag (fun z hz he => absurd he (hnow z hz))

theorem Accounted.event {l : List (Hub × Event)} {hub : Hub} (h : Accounted l hub) (e : Event) :
    Accounted (l ++ [(hub, e)]) (hub.apply e) := by
  have ht := turnover_apply h.filed e
  refine ⟨h.filed.apply e, ?_, ?_⟩
  · refine forall_drops_append ?_ ?_
    · exact fun e' he' z hz => Nat.lt_of_lt_of_le (h.past e' he' z hz) ht.size
    · exact fun z hz => Nat.lt_of_lt_of_le (h.filed.serials hz.1) ht.size
  · intro x hx
    by_cases hlt : x.serial < hub.records.size
    · exact (h.accounts x hlt).event h.filed e hlt
    · -- the record is new, so nothing that was dropped has it
      obtain ⟨hflag, y, hy, hserial⟩ := ht.new (Nat.le_of_not_lt hlt) hx
      refine .kept hy hserial hflag (forall_drops_append ?_ ?_)
      · intro e' he' z hz he
        have := h.past e' he' z hz
        omega
      · intro z hz he
        have := h.filed.serials hz.1
        omega

theorem Chronicle.accounted {start hub : Hub} {l : List (Hub × Event)}
    (hc : Chronicle start l hub) (hf : start.Filed) (hnew : start.records.size = 0) :
    Accounted l hub := by
  induction hc with
  | start =>
    refine ⟨hf, ?_, ?_⟩
    · intro e he
      cases he
    · intro x hx
      omega
  | event _ e ih => exact ih.event e
  | aside _ ha ih =>
    refine ⟨ha.filed ih.filed, ?_, ?_⟩
    · rw [ha.size]
      exact ih.past
    · intro x hx
      rw [ha.size] at hx
      exact (ih.accounts x hx).aside ha

end Hub

/-! ## Courses -/

namespace Station

variable {settings : HubSettings} {directory : Option StateDirectory} {start s : Station}
  {turns : List Turn}

theorem Course.chronicle (h : Station.start settings directory = .ok start)
    (hc : Course start turns s) : ∃ l, Hub.Chronicle start.hub l s.hub := by
  have hkept := hc.invariant
    (P := fun hub => (hub.Named ∧ hub.Filed) ∧ ∃ l, Hub.Chronicle start.hub l hub)
    ⟨⟨named_start h, filed_start h⟩, [], .start⟩ ?_ ?_
  · exact hkept.2
  · rintro hub dirty ⟨⟨hn, hf⟩, l, hl⟩
    exact ⟨⟨hn, hf.shrink (.of_eq rfl rfl)⟩, l, hl.aside (.of_same rfl rfl (fun _ hw => hw))⟩
  · rintro ω react around now op hub ⟨⟨hn, hf⟩, hl⟩
    have hp := Run.perform_passes react now op around hn hf.nodup_published
    exact ⟨⟨hp.named hn, hp.filed hf⟩, hp.chronicle hl⟩

/-- The events of a course make a chronicle. Whatever the chronicle, a held handle that is
flagged as an orphan is not published, and the flag of a held handle is exact unless an event of
the chronicle has dropped it while its record named no holder. -/
theorem Course.orphaned_iff (h : Station.start settings directory = .ok start)
    (hc : Course start turns s) :
    (∃ l, Hub.Chronicle start.hub l s.hub) ∧
      ∀ l, Hub.Chronicle start.hub l s.hub → ∀ p ∈ s.hub.places.values, ∀ x ∈ p.held,
        (s.hub.isOrphaned x = true → x ∉ s.hub.published) ∧
          ((s.hub.isOrphaned x = true ↔ x ∉ s.hub.published) ↔
            ∀ e ∈ l, ¬ Hub.DropsFree e.1 e.2 x.serial) := by
  refine ⟨hc.chronicle h, ?_⟩
  intro l hl p hp x hx
  obtain ⟨hlt, heq⟩ := hc.eq_of_serial h ⟨p, hp, hx⟩
  have hnew : start.hub.records.size = 0 := by
    obtain ⟨places, hhub, _⟩ := start_ok h
    rw [hhub]
    rfl
  have haccounted := hl.accounted (filed_start h) hnew
  cases haccounted.accounts x hlt with
  | @kept y hy hserial hflag hnever =>
    have hxy : y = x := heq y hy hserial
    subst hxy
    refine ⟨?_, ?_⟩
    · intro hset
      rw [hflag] at hset
      cases hset
    · have hexact : s.hub.isOrphaned y = true ↔ y ∉ s.hub.published := by
        simp [hflag, hy]
      refine iff_of_true hexact ?_
      rintro e he ⟨z, hz, hzx, _⟩
      exact hnever e he z hz hzx
  | @dropped e y he hy hserial hgone hflag =>
    have hnot : x ∉ s.hub.published := fun hx => hgone x hx rfl
    refine ⟨fun _ => hnot, ?_⟩
    have hexact : (s.hub.isOrphaned x = true ↔ x ∉ s.hub.published) ↔
        s.hub.isOrphaned x = true := by
      simp [hnot]
    rw [hexact]
    constructor
    · rintro hset e' he' ⟨z, hz, hzx, hfree⟩
      have hheld := (hflag e' he' z hz hzx).mp hset
      rw [hfree] at hheld
      cases hheld
    · intro hheld
      rw [hflag e he y hy hserial, Option.isSome_iff_ne_none]
      intro hfree
      exact hheld e he ⟨y, hy, hserial, hfree⟩

/-- In the small laboratory the board holds the relay, which is published and not flagged, so no
event has dropped it. -/
theorem orphaned_iff_lab :
    ∃ x, lab.hub.Holds x ∧ x ∈ lab.hub.published ∧ lab.hub.isOrphaned x = false ∧
      ∃ l, Hub.Chronicle empty.hub l lab.hub ∧ ∀ e ∈ l, ¬ Hub.DropsFree e.1 e.2 x.serial := by
  have hstart : Station.start ⟨1000, 1000⟩ none = .ok empty := rfl
  have hrelay : lab.hub.places.values.any (fun p => p.held.any (fun x =>
      lab.hub.published.contains x && !lab.hub.isOrphaned x)) = true := by decide +kernel
  obtain ⟨p, hp, hany⟩ := List.any_eq_true.mp hrelay
  obtain ⟨x, hx, hcond⟩ := List.any_eq_true.mp hany
  simp only [Bool.and_eq_true, List.contains_iff_mem, Bool.not_eq_true'] at hcond
  obtain ⟨hpublished, hflag⟩ := hcond
  obtain ⟨⟨l, hl⟩, hall⟩ := Course.orphaned_iff hstart (course_play empty labScenes)
  have hexact : lab.hub.isOrphaned x = true ↔ x ∉ lab.hub.published := by
    simp [hflag, hpublished]
  exact ⟨x, ⟨p, hp, hx⟩, hpublished, hflag, l, hl, ((hall l hl p hp x hx).2).mp hexact⟩

/-! ## A handle without a flag -/

/-- Behind the scenes of the small laboratory the exporter reports the relay as free, although
the board holds it, and then withdraws it. -/
def forgottenScenes : List Scene :=
  labScenes ++
    [⟨8, .event (.exporterSends 0 (labReport "")), []⟩,
     ⟨9, .event (.exporterSends 0
        (.resource ⟨some ("rack", "relay"), "", SortedMap.empty, "", true⟩)), []⟩]

/-- The small laboratory with the forgotten relay. -/
def forgotten : Station := (empty.play forgottenScenes).2

/-- The board holds the relay, which has been deleted and is not flagged. -/
theorem forgotten_relay :
    Course empty (empty.play forgottenScenes).1 forgotten ∧
      ∃ p ∈ forgotten.hub.places.values, ∃ x ∈ p.held,
        ¬ (forgotten.hub.isOrphaned x = true ↔ x ∉ forgotten.hub.published) := by
  have hrelay : forgotten.hub.places.values.any (fun p => p.held.any (fun x =>
      !forgotten.hub.published.contains x && !forgotten.hub.isOrphaned x)) = true := by
    decide +kernel
  obtain ⟨p, hp, hany⟩ := List.any_eq_true.mp hrelay
  obtain ⟨x, hx, hcond⟩ := List.any_eq_true.mp hany
  simp only [Bool.and_eq_true, List.contains_iff_mem, Bool.not_eq_true', ← Bool.not_eq_true] at hcond
  obtain ⟨hnot, hflag⟩ := hcond
  exact ⟨course_play empty forgottenScenes, p, hp, x, hx, fun hiff => hflag (hiff.mpr hnot)⟩

end Station

end BoardFarm
