import BoardFarm.Proofs.SingleOwner
import BoardFarm.Proofs.Turnover

/-!
# Where held handles come from

Places hold handles that have been published at some time: they are acquired or put in the place
of an orphan from the tree, or attached when they have just come into it. So two handles with one
record are the same, wherever they are found.

* `Hub.Known`: the handles that are published, held or wait to be attached.
* `Hub.Covers`: all handles that have been known, no two with one record.
* `Station.Course.eq_of_serial`: a held handle is told by its record.
-/

namespace BoardFarm

namespace Hub

/-- Some place holds the handle. -/
def Holds (hub : Hub) (x : Handle) : Prop := ∃ p ∈ hub.places.values, x ∈ p.held

/-- The handle is published, held, or waits to be attached. -/
def Known (hub : Hub) (x : Handle) : Prop :=
  x ∈ hub.published ∨ hub.Holds x ∨ ∃ id, (id, FollowUp.added x) ∈ hub.followUps

/-- Handles among which are all that are known. They have records, and no two have the same. -/
structure Covers (K : Handle → Prop) (hub : Hub) : Prop where
  known : ∀ {x : Handle}, hub.Known x → K x
  serials : ∀ {x : Handle}, K x → x.serial < hub.records.size
  distinct : ∀ {x y : Handle}, K x → K y → x.serial = y.serial → x = y

/-! ## Moves -/

theorem mem_replaceHandle {h x : Handle} {l : List Handle} (hx : x ∈ replaceHandle h l) :
    x = h ∨ x ∈ l := by
  induction l with
  | nil => cases hx
  | cons old rest ih =>
    unfold replaceHandle at hx
    split at hx
    · rcases List.mem_cons.mp hx with rfl | hrest
      · exact Or.inl rfl
      · exact Or.inr (List.mem_cons_of_mem _ hrest)
    · rcases List.mem_cons.mp hx with rfl | hrest
      · exact Or.inr (List.mem_cons_self ..)
      · exact (ih hrest).imp id (List.mem_cons_of_mem _)

theorem Change.mem_held {o : Occasion} {hub : Hub} {name : String} {p q : Place}
    (hc : Change o hub name p q) {x : Handle} (hx : x ∈ q.held) : x ∈ p.held ∨ o.hub.Known x := by
  cases hc with
  | edit he =>
    rw [he.retains.held] at hx
    exact Or.inl hx
  | retag tags _ => exact Or.inl hx
  | acquire _ _ _ hpublished =>
    rcases List.mem_append.mp hx with hold | hclaimed
    · exact Or.inl hold
    · exact Or.inr (Or.inl (hpublished x hclaimed))
  | release => cases hx
  | attach _ _ _ hwork =>
    rcases List.mem_append.mp hx with hold | hlast
    · exact Or.inl hold
    · rw [List.mem_singleton.mp hlast]
      obtain ⟨e, he, hadded⟩ := Option.map_eq_some_iff.mp hwork
      refine Or.inr (Or.inr (Or.inr ⟨e.1, ?_⟩))
      rw [← hadded]
      exact List.mem_of_find?_eq_some he
  | replace _ hpublished =>
    rcases mem_replaceHandle hx with rfl | hold
    · exact Or.inr (Or.inl hpublished)
    · exact Or.inl hold

theorem Placing.mem_held {o : Occasion} {hub : Hub} {places : SortedMap String Place}
    (h : Placing o hub places) {k : String} {q : Place} (hq : places.get? k = some q) {x : Handle}
    (hx : x ∈ q.held) : hub.Holds x ∨ o.hub.Known x := by
  have hof : ∀ {k : String} {p : Place}, hub.places.get? k = some p → x ∈ p.held → hub.Holds x :=
    fun hp hx => ⟨_, SortedMap.mem_values_iff.mpr ⟨_, hp⟩, hx⟩
  cases h with
  | keep => exact Or.inl (hof hq hx)
  | erase name => exact Or.inl (hof (SortedMap.get?_erase_eq_some_iff.mp hq).2 hx)
  | add _ _ =>
    rcases SortedMap.get?_insert_eq_some_iff.mp hq with ⟨_, rfl⟩ | ⟨_, hold⟩
    · cases hx
    · exact Or.inl (hof hold hx)
  | addDefault =>
    rcases SortedMap.get?_insert_eq_some_iff.mp hq with ⟨_, rfl⟩ | ⟨_, hold⟩
    · cases hx
    · exact Or.inl (hof hold hx)
  | change hp hc =>
    rcases SortedMap.get?_insert_eq_some_iff.mp hq with ⟨_, rfl⟩ | ⟨_, hold⟩
    · exact (hc.mem_held hx).imp_left (hof hp)
    · exact Or.inl (hof hold hx)

/-- A place comes to hold only what was published or waited to be attached when the operation
started. -/
theorem Move.holds {o : Occasion} {hub hub' : Hub} (hn : hub.Named) (hm : Move o hub hub')
    {x : Handle} (hx : hub'.Holds x) : hub.Holds x ∨ o.hub.Known x := by
  obtain ⟨q, hq, hx⟩ := hx
  obtain ⟨k, hk⟩ := SortedMap.mem_values_iff.mp hq
  obtain ⟨places, hplacing, he | ⟨owners, he⟩⟩ := hm.placing hn
  · rw [he] at hk
    exact hplacing.mem_held hk hx
  · rw [he] at hk
    obtain ⟨p, hp, rfl⟩ := SortedMap.get?_mapValues_eq_some_iff.mp hk
    rw [(retains_relink o.now owners p).held] at hx
    exact hplacing.mem_held hp hx

/-! ## Covers -/

/-- Handles that come into the tree have records of their own. -/
theorem Covers.turnover {K : Handle → Prop} {hub hub' : Hub} (h : Covers K hub)
    (ht : Turnover hub hub') (hf' : hub'.Filed) (hplaces : hub'.places = hub.places) :
    ∃ K', (∀ x, K x → K' x) ∧ Covers K' hub' := by
  refine ⟨fun x => K x ∨ x ∈ hub'.published ∧ hub.records.size ≤ x.serial,
    fun x hx => Or.inl hx, ?_, ?_, ?_⟩
  · rintro x (hx | ⟨p, hp, hx⟩ | ⟨id, hx⟩)
    · by_cases hlt : x.serial < hub.records.size
      · exact Or.inl (h.known (Or.inl (ht.old hx hlt)))
      · exact Or.inr ⟨hx, Nat.le_of_not_lt hlt⟩
    · rw [hplaces] at hp
      exact Or.inl (h.known (Or.inr (Or.inl ⟨p, hp, hx⟩)))
    · rcases ht.queued hx with hold | hnew
      · exact Or.inl (h.known (Or.inr (Or.inr ⟨id, hold⟩)))
      · exact Or.inr hnew
  · rintro x (hx | ⟨hx, _⟩)
    · exact Nat.lt_of_lt_of_le (h.serials hx) ht.size
    · exact hf'.serials hx
  · -- a covered handle has an old record, a handle that is new to the tree has not
    rintro x y (hx | ⟨hx, hlow⟩) (hy | ⟨hy, hlow'⟩) he
    · exact h.distinct hx hy he
    · have := h.serials hx
      omega
    · have := h.serials hy
      omega
    · exact hf'.distinct hx hy he

variable {K : Handle → Prop}

/-- Some handles cover the hub, those of a hub before among them. -/
def Traced (K : Handle → Prop) (hub : Hub) : Prop := ∃ K', (∀ x, K x → K' x) ∧ Covers K' hub

theorem Traced.turnover {hub hub' : Hub} (h : Traced K hub) (ht : Turnover hub hub')
    (hf' : hub'.Filed) (hplaces : hub'.places = hub.places) : Traced K hub' := by
  obtain ⟨K', hK, hc⟩ := h
  obtain ⟨K'', hK', hc'⟩ := hc.turnover ht hf' hplaces
  exact ⟨K'', fun x hx => hK' x (hK x hx), hc'⟩

theorem Exchange.traced {tells : Bool} {hub hub' : Hub} {l : List Attempt}
    (hx : Exchange tells hub l hub') (hf : hub.Filed) (h : Traced K hub) : Traced K hub' := by
  induction hx with
  | refl => exact h
  | stir hx hs ih =>
    have hf₁ := hx.filed hf
    exact ih.turnover (hs.turnover hf₁) (hs.filed hf₁) hs.quiet.places
  | @settle _ a hx ih =>
    have ha : Aside a.hub (a.settled tells) := aside_settled tells a
    exact ih.turnover ha.turnover (ha.filed (hx.filed hf)) (quiet_settled tells a).places

/-- A move makes nothing known but what it finds in the hub or has found when the operation
started. -/
theorem Move.traced {o : Occasion} {hub hub' : Hub} (hn : hub.Named) (hm : Move o hub hub')
    (ho : ∀ x, o.hub.Known x → K x) (h : Traced K hub) : Traced K hub' := by
  obtain ⟨K', hK, hc⟩ := h
  have ha := hm.aside
  refine ⟨K', hK, ?_, ?_, hc.distinct⟩
  · rintro x (hx | hx | ⟨id, hx⟩)
    · exact hc.known (Or.inl ((ha.published x).mp hx))
    · rcases hm.holds hn hx with hold | hfound
      · exact hc.known (Or.inr (Or.inl hold))
      · exact hK x (ho x hfound)
    · exact hc.known (Or.inr (Or.inr ⟨id, ha.followUps _ hx⟩))
  · intro x hx
    rw [ha.size]
    exact hc.serials hx

theorem Passage.traced {o : Occasion} {tells : Bool} {hub hub' : Hub} {l : List Attempt}
    (hp : Passage o tells hub l hub') (hn : hub.Named) (hf : hub.Filed)
    (ho : ∀ x, o.hub.Known x → K x) (h : Traced K hub) : Traced K hub' := by
  induction hp with
  | refl => exact h
  | exchange hp hx ih => exact hx.traced (hp.filed hf) ih
  | move hp hm _ ih => exact hm.traced (hp.named hn) ho ih

end Hub

/-! ## Courses -/

namespace Station

variable {settings : HubSettings} {directory : Option StateDirectory} {start s : Station}
  {turns : List Turn}

theorem covers_start (h : Station.start settings directory = .ok start) :
    Hub.Covers (fun _ => False) start.hub := by
  obtain ⟨places, hhub, hplaces⟩ := start_ok h
  rw [hhub]
  refine ⟨?_, fun hx => hx.elim, fun hx => hx.elim⟩
  rintro x (hx | ⟨p, hp, hx⟩ | ⟨id, hx⟩)
  · simp [Hub.published, Hub.sessions, Hub.new, stableSort] at hx
  · obtain ⟨k, hk⟩ := SortedMap.mem_values_iff.mp hp
    rw [(hplaces k p hk).2.2.1] at hx
    cases hx
  · cases hx

theorem Course.covers (h : Station.start settings directory = .ok start)
    (hc : Course start turns s) : ∃ K, Hub.Covers K s.hub := by
  have hkept := hc.invariant
    (P := fun hub => (hub.Named ∧ hub.Filed) ∧ ∃ K, Hub.Covers K hub)
    ⟨⟨named_start h, filed_start h⟩, _, covers_start h⟩ ?_ ?_
  · exact hkept.2
  · rintro hub dirty ⟨⟨hn, hf⟩, K, hK⟩
    exact ⟨⟨hn, hf.shrink (.of_eq rfl rfl)⟩, K, hK.known, hK.serials, hK.distinct⟩
  · rintro ω react around now op hub ⟨⟨hn, hf⟩, K, hK⟩
    have hp := Run.perform_passes react now op around hn hf.nodup_published
    obtain ⟨K', _, hK'⟩ := hp.traced hn hf (fun _ hx => hK.known hx) ⟨K, fun _ hx => hx, hK⟩
    exact ⟨⟨hp.named hn, hp.filed hf⟩, K', hK'⟩

/-- Throughout a course held handles have records, and no published handle but the held one has
its record. -/
theorem Course.eq_of_serial (h : Station.start settings directory = .ok start)
    (hc : Course start turns s) {x : Handle} (hx : s.hub.Holds x) :
    x.serial < s.hub.records.size ∧
      ∀ y ∈ s.hub.published, y.serial = x.serial → y = x := by
  obtain ⟨K, hK⟩ := hc.covers h
  have hxK : K x := hK.known (Or.inr (Or.inl hx))
  exact ⟨hK.serials hxK, fun y hy he => hK.distinct (hK.known (Or.inl hy)) hxK he⟩

end Station

end BoardFarm
