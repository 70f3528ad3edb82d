import BoardFarm.Proofs.ReservationLife
import BoardFarm.Proofs.ServiceOrder

/-!
# Fair allocation

No reservation waits for a place that is free, and none is overtaken. A pass ranks the waiting
reservations in the order of service and gives away every free place that one of them suits, so
the first part comes from the order of service. It lasts until the next pass, because whatever
frees a place, adds one, changes its tags or adds a reservation makes a pass itself.

* `Reservation.Suits`: when a place carries the tags that a reservation asks for.
* `Hub.has_of_advance`: which places a pass gives to reservations.
* `Hub.served_schedule`, `Hub.inOrder_schedule`: what a pass over the reservations achieves.
* `Hub.Served`, `Hub.InOrder`: what holds behind every operation.
* `Station.Course.fair_allocation`: both throughout a course.
-/

namespace BoardFarm

namespace Reservation

/-- The place carries all tags that the reservation asks for. -/
def Suits (r : Reservation) (p : Place) : Prop :=
  ∀ tag ∈ r.mainTags, p.schedulingTags.has tag = true

theorem Suits.of_mainTags {r r' : Reservation} {p : Place} (h : r.Suits p)
    (htags : r'.mainTags = r.mainTags) : r'.Suits p := by
  unfold Suits
  rw [htags]
  exact h

theorem precedes_eq_true_iff {a b : Reservation} :
    a.precedes b = true ↔ b.prio.rank < a.prio.rank ∨ a.prio.rank = b.prio.rank ∧
      (a.created < b.created ∨ a.created = b.created ∧ a.token.value.val < b.token.value.val) := by
  simp only [precedes, Bool.or_eq_true, Bool.and_eq_true, decide_eq_true_eq, beq_iff_eq]
  rfl

theorem precedes_asymm (a b : Reservation) (h : a.precedes b = true) : b.precedes a = false := by
  rw [← Bool.not_eq_true, precedes_eq_true_iff]
  rw [precedes_eq_true_iff] at h
  omega

theorem not_precedes_trans (a b c : Reservation) (h : b.precedes a = false)
    (h' : c.precedes b = false) : c.precedes a = false := by
  rw [← Bool.not_eq_true, precedes_eq_true_iff] at h h' ⊢
  omega

/-- Two reservations with different tokens have an order. -/
theorem precedes_of_not_precedes {a b : Reservation} (h : b.precedes a = false)
    (hne : a.token ≠ b.token) : a.precedes b = true := by
  have hvalue : a.token.value.val ≠ b.token.value.val := by
    intro he
    apply hne
    have hval : a.token.value = b.token.value := Fin.ext he
    exact congrArg Identifier.mk hval
  rw [← Bool.not_eq_true, precedes_eq_true_iff] at h
  rw [precedes_eq_true_iff]
  omega

end Reservation

namespace Hub

variable {places : SortedMap String Place} {rs : SortedMap Token Reservation}

/-! ## The ranks of waiting reservations -/

theorem nodup_tokens (h : Planned rs) : (rs.values.map Reservation.token).Nodup := by
  have hkeys : rs.values.map Reservation.token = rs.keys := by
    unfold SortedMap.values SortedMap.keys
    rw [List.map_map]
    apply List.map_congr_left
    rintro ⟨t, r⟩ he
    exact h.keyed (SortedMap.mem_toList_iff.mp he)
  rw [hkeys]
  exact rs.keys_nodup

/-- The waiting reservations stand in the order of service. -/
theorem pairwise_waiting (h : Planned rs) :
    (waiting rs).Pairwise (fun a b => a.precedes b = true) := by
  have hsorted : (waiting rs).Pairwise (fun a b => b.precedes a = false) :=
    pairwise_stableSort Reservation.precedes_asymm Reservation.not_precedes_trans _
  have htokens : ((waiting rs).map Reservation.token).Nodup := by
    unfold waiting
    rw [((perm_stableSort _ _).map Reservation.token).nodup_iff]
    exact (nodup_tokens h).sublist (List.filter_sublist.map _)
  exact hsorted.imp₂ (fun _ _ => Reservation.precedes_of_not_precedes)
    (List.pairwise_map.mp htokens)

theorem mem_waiting_iff (h : Planned rs) {r : Reservation} :
    r ∈ waiting rs ↔ rs.get? r.token = some r ∧ r.state = .waiting := by
  unfold waiting
  rw [mem_stableSort, List.mem_filter, SortedMap.mem_values_iff, decide_eq_true_eq]
  constructor
  · rintro ⟨⟨t, ht⟩, hw⟩
    exact ⟨by rw [h.keyed ht]; exact ht, hw⟩
  · rintro ⟨ht, hw⟩
    exact ⟨⟨r.token, ht⟩, hw⟩

/-- The filter of a reservation that is served at some rank. -/
def filterOf (r : Reservation) (rank : Nat) : TagSet :=
  ⟨r.token.text, SortedSet.ofList r.mainTags, rank⟩

theorem mem_wanted_iff {g : TagSet} :
    g ∈ wanted rs ↔ ∃ i r, (waiting rs)[i]? = some r ∧ g = filterOf r i := by
  unfold wanted
  rw [List.mem_map]
  constructor
  · rintro ⟨⟨r, i⟩, hmem, rfl⟩
    exact ⟨i, r, List.mem_zipIdx_iff_getElem?.mp hmem, rfl⟩
  · rintro ⟨i, r, hget, rfl⟩
    exact ⟨(r, i), List.mem_zipIdx_iff_getElem?.mpr hget, rfl⟩

/-- Ranks follow the order of service. -/
theorem precedes_of_rankBefore (h : Planned rs) {i j : Nat} {q r : Reservation}
    (hq : (waiting rs)[i]? = some q) (hr : (waiting rs)[j]? = some r)
    (hbefore : (filterOf q i).rankBefore (filterOf r j) = true) : q.precedes r = true := by
  rcases TagSet.rankBefore_eq_true_iff.mp hbefore with hlt | ⟨he, hname⟩
  · obtain ⟨hi, rfl⟩ := List.getElem?_eq_some_iff.mp hq
    obtain ⟨hj, rfl⟩ := List.getElem?_eq_some_iff.mp hr
    exact List.pairwise_iff_getElem.mp (pairwise_waiting h) i j hi hj hlt
  · have hij : i = j := he
    rw [hij, hr] at hq
    cases hq
    exact absurd hname (KeyOrder.irrefl _)

/-! ## Allocation -/

theorem fits_filterOf_iff {r : Reservation} {p : Place} (rank : Nat) :
    (filterOf r rank).fits ⟨p.name, p.schedulingTags, 0⟩ = true ↔ r.Suits p := by
  unfold TagSet.fits filterOf
  rw [SortedSet.isSubset_iff]
  simp only [SortedSet.has_ofList, decide_eq_true_eq]
  exact Iff.rfl

/-- A free place that suits a waiting reservation without an assigned place is assigned to one that
precedes it. -/
theorem exists_assigned (hn : ∀ k p, places.get? k = some p → p.name = k) (h : Planned rs)
    {r : Reservation} (hr : rs.get? r.token = some r) (hwaiting : r.state = .waiting)
    (hleft : (Scheduling.assign (freePlaces places rs) (wanted rs)).get? r.token.text = none)
    {name : String} {p : Place} (hp : places.get? name = some p) (hfree : p.acquired = none)
    (hunreserved : ∀ t q, rs.get? t = some q → ¬ q.Has name) (hsuits : r.Suits p) :
    ∃ q, rs.get? q.token = some q ∧
      (Scheduling.assign (freePlaces places rs) (wanted rs)).get? q.token.text = some name ∧
      q.precedes r = true := by
  obtain ⟨j, hj⟩ := List.mem_iff_getElem?.mp ((mem_waiting_iff h).mpr ⟨hr, hwaiting⟩)
  have hname := hn name p hp
  have hmem : TagSet.mk p.name p.schedulingTags 0 ∈ freePlaces places rs := by
    refine List.mem_map.mpr ⟨p, List.mem_filter.mpr ⟨SortedMap.mem_values_iff.mpr ⟨name, hp⟩, ?_⟩,
      rfl⟩
    simp only [hfree, Option.isNone_none, Bool.true_and, Bool.not_eq_true',
      List.contains_eq_mem, decide_eq_false_iff_not]
    intro htaken
    unfold allocatedNames at htaken
    obtain ⟨q, hq, hplace⟩ := List.mem_flatMap.mp htaken
    obtain ⟨hq, hhas⟩ := List.mem_filter.mp hq
    obtain ⟨t, ht⟩ := SortedMap.mem_values_iff.mp hq
    rw [hname] at hplace
    exact hunreserved t q ht ((h.formed ht).has_of_mem hhas hplace)
  obtain ⟨f, hf, hassigned, hbefore⟩ := Scheduling.exists_assigned_of_fits
    (nodup_freePlaces rs hn) (mem_wanted_iff.mpr ⟨j, r, hj, rfl⟩) hleft hmem
    ((fits_filterOf_iff j).mpr hsuits)
  obtain ⟨i, q, hi, rfl⟩ := mem_wanted_iff.mp hf
  obtain ⟨hq, _⟩ := (mem_waiting_iff h).mp (List.mem_of_getElem? hi)
  rw [hname] at hassigned
  exact ⟨q, hq, hassigned, precedes_of_rankBefore h hi hj hbefore⟩

/-- A reservation that is assigned a place waits, and the place is free and suits it. -/
theorem suits_of_assigned (hn : ∀ k p, places.get? k = some p → p.name = k) (h : Planned rs)
    {r : Reservation} (hr : rs.get? r.token = some r) {name : String}
    (hassigned : (Scheduling.assign (freePlaces places rs) (wanted rs)).get? r.token.text =
      some name) :
    r.state = .waiting ∧
      ∃ p, places.get? name = some p ∧ p.acquired = none ∧ r.Suits p := by
  obtain ⟨f, hf, free, hmem, hfilter, hplace, hfits⟩ :=
    Scheduling.exists_fits_of_assign hassigned
  obtain ⟨i, r', hi, rfl⟩ := mem_wanted_iff.mp hf
  obtain ⟨hr', hwaiting⟩ := (mem_waiting_iff h).mp (List.mem_of_getElem? hi)
  have htoken : r'.token = r.token := Identifier.text_inj hfilter
  rw [htoken, hr] at hr'
  cases hr'
  refine ⟨hwaiting, ?_⟩
  obtain ⟨p, hp, rfl⟩ := List.mem_map.mp hmem
  obtain ⟨hp, hfree⟩ := List.mem_filter.mp hp
  obtain ⟨k, hk⟩ := SortedMap.mem_values_iff.mp hp
  have hname : name = k := hplace.symm.trans (hn k p hk)
  rw [Bool.and_eq_true, Option.isNone_iff_eq_none] at hfree
  rw [hname]
  exact ⟨p, hk, hfree.1, (fits_filterOf_iff i).mp hfits⟩

theorem allocate_waiting {settings : HubSettings} {now : Nat}
    {assignment : SortedMap String String} {r : Reservation}
    (h : (allocate settings now assignment r).state = .waiting) :
    allocate settings now assignment r = r ∧ r.state = .waiting ∧
      assignment.get? r.token.text = none := by
  rcases allocate_cases settings now assignment r with he | ⟨_, _, _, _, hstate, _⟩
  · rw [he] at h
    refine ⟨he, h, ?_⟩
    unfold allocate at he
    rw [if_pos h] at he
    split at he
    · assumption
    · rw [← he] at h
      cases h
  · rw [hstate] at h
    cases h

theorem precedes_allocate (settings : HubSettings) (now : Nat)
    (assignment : SortedMap String String) (q r : Reservation) :
    (allocate settings now assignment q).precedes r = q.precedes r := by
  unfold allocate
  split
  · split <;> rfl
  · rfl

theorem mainTags_allocate (settings : HubSettings) (now : Nat)
    (assignment : SortedMap String String) (r : Reservation) :
    (allocate settings now assignment r).mainTags = r.mainTags := by
  unfold allocate
  split
  · split <;> rfl
  · rfl

theorem mainTags_expire (settings : HubSettings) (now : Nat) (r : Reservation) :
    (expire settings now r).mainTags = r.mainTags := by
  unfold expire
  split <;> rfl

theorem mainTags_follow (settings : HubSettings) (places : SortedMap String Place) (now : Nat)
    (r : Reservation) : (follow settings places now r).mainTags = r.mainTags := by
  unfold follow
  split
  · rfl
  · split
    · rfl
    · split <;> rfl

/-- The reservations before the last step of a pass. -/
def followed (settings : HubSettings) (places : SortedMap String Place) (now : Nat)
    (rs : SortedMap Token Reservation) : SortedMap Token Reservation :=
  (rs.filter (fun _ r => isKept now r)).mapValues (fun _ r =>
    follow settings places now (expire settings now r))

theorem planned_followed (settings : HubSettings) (places : SortedMap String Place) (now : Nat)
    (h : Planned rs) : Planned (followed settings places now rs) :=
  (fits_follow settings places now (h.filter _)).toPlanned

theorem has_of_followed {settings : HubSettings} {now : Nat} (h : Planned rs) {t : Token}
    {q : Reservation} {name : String} (hq : (followed settings places now rs).get? t = some q)
    (hhas : q.Has name) :
    ∃ q₀, rs.get? t = some q₀ ∧ q₀.Has name ∧ q.mainTags = q₀.mainTags := by
  obtain ⟨q₀, hq₀, rfl⟩ := SortedMap.get?_mapValues_eq_some_iff.mp hq
  rw [SortedMap.get?_filter, Option.filter_eq_some_iff] at hq₀
  obtain ⟨he, hehas⟩ := formed_expire settings now (h.formed hq₀.1)
  refine ⟨q₀, hq₀.1, hehas name ((formed_follow settings places now he).2 name hhas).1, ?_⟩
  exact (mainTags_follow settings places now _).trans (mainTags_expire settings now q₀)

theorem advance_eq (settings : HubSettings) (places : SortedMap String Place) (now : Nat)
    (rs : SortedMap Token Reservation) : advance settings places now rs =
      (followed settings places now rs).mapValues (fun _ r => allocate settings now
        (Scheduling.assign (freePlaces places (followed settings places now rs))
          (wanted (followed settings places now rs))) r) := rfl

/-- A reservation that has a place behind a pass had it before, or the pass gives it a free place
that suits it. -/
theorem has_of_advance (hn : ∀ k p, places.get? k = some p → p.name = k) (h : Planned rs)
    {settings : HubSettings} {now : Nat} {t : Token} {r : Reservation} {name : String}
    (hr : (advance settings places now rs).get? t = some r) (hhas : r.Has name) :
    (∃ r₀, rs.get? t = some r₀ ∧ r₀.Has name ∧ r.mainTags = r₀.mainTags) ∨
      ∃ p, places.get? name = some p ∧ p.acquired = none ∧ r.Suits p := by
  have hplan := planned_followed settings places now h
  rw [advance_eq] at hr
  obtain ⟨r₁, hr₁, rfl⟩ := SortedMap.get?_mapValues_eq_some_iff.mp hr
  rcases allocate_cases settings now (Scheduling.assign
    (freePlaces places (followed settings places now rs))
    (wanted (followed settings places now rs))) r₁ with he | ⟨_, place, hassigned, _, _, hplace⟩
  · rw [he] at hhas ⊢
    exact Or.inl (has_of_followed h hr₁ hhas)
  · have hr₁' : (followed settings places now rs).get? r₁.token = some r₁ := by
      rw [hplan.keyed hr₁]
      exact hr₁
    obtain ⟨_, p, hp, hfree, hsuits⟩ := suits_of_assigned hn hplan hr₁' hassigned
    rw [hhas.unique hplace]
    exact Or.inr ⟨p, hp, hfree, hsuits.of_mainTags (mainTags_allocate settings now _ r₁)⟩

/-- A pass gives only free places away. -/
theorem free_of_given (hn : ∀ k p, places.get? k = some p → p.name = k) (h : Planned rs)
    {settings : HubSettings} {now : Nat} {t : Token} {q : Reservation} {name : String}
    (hq : (advance settings places now rs).get? t = some q) (hhas : q.Has name)
    (hnew : ∀ q₀, rs.get? t = some q₀ → ¬ q₀.Has name) :
    ∃ p, places.get? name = some p ∧ p.acquired = none := by
  rcases has_of_advance hn h hq hhas with ⟨q₀, hq₀, hhas₀, _⟩ | ⟨p, hp, hfree, _⟩
  · exact absurd hhas₀ (hnew q₀ hq₀)
  · exact ⟨p, hp, hfree⟩

/-- A free place that suits a reservation which waits behind a pass has been given away, by this
pass to one that precedes it or earlier. -/
theorem exists_allocated (hn : ∀ k p, places.get? k = some p → p.name = k) (h : Planned rs)
    {settings : HubSettings} {now : Nat} {t : Token} {r : Reservation}
    (hr : (advance settings places now rs).get? t = some r) (hwaiting : r.state = .waiting)
    {name : String} {p : Place} (hp : places.get? name = some p) (hfree : p.acquired = none)
    (hsuits : r.Suits p) :
    ∃ u q, (advance settings places now rs).get? u = some q ∧ q.Has name ∧
      (q.precedes r = true ∨ ∃ q₀, rs.get? u = some q₀ ∧ q₀.Has name) := by
  have hplan := planned_followed settings places now h
  have hold : ∀ {u q}, (followed settings places now rs).get? u = some q → q.Has name →
      ∃ q₀, rs.get? u = some q₀ ∧ q₀.Has name := by
    intro u q hq hhas
    obtain ⟨q₀, hq₀, hhas₀, _⟩ := has_of_followed h hq hhas
    exact ⟨q₀, hq₀, hhas₀⟩
  rw [advance_eq] at hr ⊢
  generalize followed settings places now rs = fs at hplan hold hr
  obtain ⟨r₁, hr₁, he⟩ := SortedMap.get?_mapValues_eq_some_iff.mp hr
  rw [← he] at hwaiting
  obtain ⟨hsame, hwaiting₁, hleft⟩ := allocate_waiting hwaiting
  rw [hsame] at he
  subst he
  by_cases htaken : ∃ u q, fs.get? u = some q ∧ q.Has name
  · obtain ⟨u, q, hq, hhas⟩ := htaken
    refine ⟨u, q, SortedMap.get?_mapValues_eq_some_iff.mpr ⟨q, hq, ?_⟩, hhas, Or.inr (hold hq hhas)⟩
    refine allocate_of_ne _ _ _ q ?_
    intro hw
    have hidle := hhas.1
    rw [hw] at hidle
    cases hidle
  · have hunreserved : ∀ u q, fs.get? u = some q → ¬ q.Has name :=
      fun u q hq hhas => htaken ⟨u, q, hq, hhas⟩
    have hr₁' : fs.get? r₁.token = some r₁ := by rw [hplan.keyed hr₁]; exact hr₁
    obtain ⟨q, hq, hassigned, hprecedes⟩ :=
      exists_assigned hn hplan hr₁' hwaiting₁ hleft hp hfree hunreserved hsuits
    refine ⟨q.token, _, SortedMap.get?_mapValues_eq_some_iff.mpr ⟨q, hq, rfl⟩, ?_, Or.inl ?_⟩
    · obtain ⟨hwaits, _⟩ := suits_of_assigned hn hplan hq hassigned
      unfold allocate
      rw [if_pos hwaits, hassigned]
      exact ⟨rfl, rfl⟩
    · rw [precedes_allocate]
      exact hprecedes

/-! ## Passes -/

/-- No reservation waits for a place that is neither held nor reserved. -/
def Served (hub : Hub) : Prop :=
  ∀ ⦃t : Token⦄ ⦃r : Reservation⦄ ⦃name : String⦄ ⦃p : Place⦄,
    hub.reservations.get? t = some r → r.state = .waiting → hub.places.get? name = some p →
    p.acquired = none → p.reservation = none → ¬ r.Suits p

/-- Places that have been given away since an earlier moment went to reservations that precede all
those which still wait and which they suit. -/
def InOrder (before hub : Hub) : Prop :=
  ∀ ⦃t u : Token⦄ ⦃r q : Reservation⦄ ⦃name : String⦄ ⦃p : Place⦄,
    hub.reservations.get? t = some r → r.state = .waiting → hub.places.get? name = some p →
    r.Suits p → hub.reservations.get? u = some q → q.Has name →
    (∀ q₀, before.reservations.get? u = some q₀ → ¬ q₀.Has name) → q.precedes r = true

theorem schedulingTags_relink (now : Nat) (owners : SortedMap String Token) (p : Place) :
    (relink now owners p).schedulingTags = p.schedulingTags := by
  unfold relink
  split <;> rfl

theorem Reservation.suits_congr {r : Reservation} {p q : Place}
    (h : p.schedulingTags = q.schedulingTags) : r.Suits p ↔ r.Suits q := by
  unfold Reservation.Suits
  rw [h]

variable {hub hub' before : Hub}

theorem served_schedule (hn : hub.Named) (h : Planned hub.reservations) (now : Nat) :
    (hub.schedule now).Served := by
  intro t r name p' hr hwaiting hp' hfree hunreserved hsuits
  have hlinked := linked_schedule hn h now
  have hbehind := hp'
  rw [places_schedule hn] at hp'
  obtain ⟨p, hp, rfl⟩ := SortedMap.get?_mapValues_eq_some_iff.mp hp'
  rw [(relink_spec now _ p).2] at hfree
  rw [Reservation.suits_congr (schedulingTags_relink now _ p)] at hsuits
  rw [reservations_schedule] at hr
  obtain ⟨u, q, hq, hhas, _⟩ := exists_allocated hn h hr hwaiting hp hfree hsuits
  have hreserved := (hlinked.link (t := u) hbehind).mpr
    ⟨q, by rw [reservations_schedule]; exact hq, hhas⟩
  rw [hunreserved] at hreserved
  cases hreserved

/-- A pass gives places to reservations in the order of service. Those which have a place when it
starts had it before. -/
theorem inOrder_schedule (hn : hub.Named) (h : Planned hub.reservations)
    (hold : ∀ u q, hub.reservations.get? u = some q → q.state.hasPlace = true →
      before.reservations.get? u = some q) (now : Nat) :
    InOrder before (hub.schedule now) := by
  intro t u r q name p' hr hwaiting hp' hsuits hq hhas hnew
  have hfits := fits_advance hn h hub.settings now
  rw [places_schedule hn] at hp'
  obtain ⟨p, hp, rfl⟩ := SortedMap.get?_mapValues_eq_some_iff.mp hp'
  rw [Reservation.suits_congr (schedulingTags_relink now _ p)] at hsuits
  rw [reservations_schedule] at hr hq
  have hfresh : ∀ q₀, hub.reservations.get? u = some q₀ → ¬ q₀.Has name :=
    fun q₀ hq₀ hhas₀ => hnew q₀ (hold u q₀ hq₀ hhas₀.1) hhas₀
  obtain ⟨p₀, hp₀, hfree⟩ := free_of_given hn h hq hhas hfresh
  rw [hp] at hp₀
  cases hp₀
  obtain ⟨u', q', hq', hhas', hcase⟩ := exists_allocated hn h hr hwaiting hp hfree hsuits
  have hu : u' = u := hfits.apart hq' hq hhas' hhas
  subst hu
  rw [hq] at hq'
  cases hq'
  rcases hcase with hprecedes | ⟨q₀, hq₀, hhas₀⟩
  · exact hprecedes
  · exact absurd hhas₀ (hfresh q₀ hq₀)

/-! ## Moves -/

/-- What depends on the tags, the owner and the reservation of places only. -/
theorem Served.store (h : hub.Served) {name : String} {p q : Place}
    (hp : hub.places.get? name = some p) (hname : q.name = p.name) (htags : q.tags = p.tags)
    (hreservation : q.reservation = p.reservation) (hacquired : q.acquired = p.acquired) :
    (hub.storePlace q).Served := by
  intro t r k q' hr hwaiting hq' hfree hunreserved hsuits
  rcases SortedMap.get?_insert_eq_some_iff.mp hq' with ⟨_, rfl⟩ | ⟨_, hold⟩
  · have hsame : p.schedulingTags = q'.schedulingTags := by
      unfold Place.schedulingTags
      rw [hname, htags]
    exact h hr hwaiting hp (hacquired.symm.trans hfree) (hreservation.symm.trans hunreserved)
      ((Reservation.suits_congr hsame).mpr hsuits)
  · exact h hr hwaiting hold hfree hunreserved hsuits

theorem Served.of_same (h : hub.Served) (hplaces : hub'.places = hub.places)
    (hreservations : hub'.reservations = hub.reservations) : hub'.Served := by
  unfold Served
  rw [hplaces, hreservations]
  exact h

theorem Served.refresh (h : hub.Served) {t : Token} {r : Reservation}
    (hr : hub.reservations.get? t = some r) (now delay : Nat) :
    Served { hub with reservations := hub.reservations.insert r.token (r.refresh now delay) } := by
  intro t' r' name p hr' hwaiting hp hfree hunreserved
  rcases SortedMap.get?_insert_eq_some_iff.mp hr' with ⟨_, rfl⟩ | ⟨_, hold⟩
  · have hno := h hr hwaiting hp hfree hunreserved
    exact hno
  · exact h hold hwaiting hp hfree hunreserved

variable {o : Occasion}

theorem Edit.keeps {p p' : Place} (he : Edit hub p p') :
    p'.tags = p.tags ∧ p'.reservation = p.reservation ∧ p'.acquired = p.acquired := by
  cases he <;> exact ⟨rfl, rfl, rfl⟩

/-- A move that frees a place or adds one, changes its tags or adds a reservation makes a pass. -/
theorem Move.served (hn : hub.Named) (hl : hub.Linked) (h : hub.Served) (hm : Move o hub hub') :
    hub'.Served := by
  have hplan := hl.fits.toPlanned
  have hstored : ∀ q : Place, (((hub.storePlace q).markDirty).schedule o.now).Served := by
    intro q
    have hw : Writes hub (hub.storePlace q).markDirty := writes_markDirty (.single (.store q))
    exact served_schedule (hw.named hn) hplan o.now
  have hplanned : ∀ rs, Planned rs → ({ hub with reservations := rs }.schedule o.now).Served := by
    intro rs hrs
    have hn' : Named { hub with reservations := rs } := hn
    exact served_schedule hn' hrs o.now
  cases hm with
  | @edit name p p' hp he =>
    obtain ⟨htags, hreservation, hacquired⟩ := he.keeps
    have hedited : (hub.storePlace (p'.touch o.now)).Served :=
      h.store hp he.name htags hreservation hacquired
    exact hedited.of_same rfl rfl
  | retag _ _ _ => exact hstored _
  | add _ _ => exact hstored _
  | addDefault => exact hstored _
  | delete name =>
    have hw : Write hub _ := .erase name
    exact served_schedule (Writes.named (writes_markDirty (.single hw)) hn) hplan o.now
  | acquire hp =>
    unfold completeAcquisition
    rw [hp]
    exact hstored _
  | release hp =>
    unfold completeRelease
    rw [hp]
    exact hstored _
  | attach hp =>
    unfold Hub.attach
    rw [hp]
    exact h.store hp rfl rfl rfl rfl
  | replace hr _ =>
    obtain ⟨p, old, hp, _, rfl⟩ := replaceHeld_eq_some hr
    exact h.store hp rfl rfl rfl rfl
  | republish handle =>
    obtain ⟨clients, he⟩ := publishHolders_eq hub handle
    rw [he]
    exact h.of_same rfl rfl
  | @reserve token address filters prio _ owner =>
    exact hplanned _ (hplan.insert_waiting token rfl rfl rfl)
  | cancel => exact hplanned _ (hplan.filter _)
  | poll hr _ => exact h.refresh hr o.now _
  | schedule => exact served_schedule hn hplan o.now
  | subscribe id enable => exact h.of_same rfl rfl
  | retries b => exact h.of_same rfl rfl

/-! ## The order of allocations -/

/-- Where nobody has got a place, the order holds. -/
theorem InOrder.of_old (h : ∀ {u q name}, hub.reservations.get? u = some q → q.Has name →
    ∃ q₀, before.reservations.get? u = some q₀ ∧ q₀.Has name) : InOrder before hub := by
  intro t u r q name p _ _ _ _ hq hhas hnew
  obtain ⟨q₀, hq₀, hhas₀⟩ := h hq hhas
  exact absurd hhas₀ (hnew q₀ hq₀)

/-- The order lasts while the reservations and the tags of their places stay the same. -/
theorem InOrder.of_tags (h : InOrder before hub) (hreservations : hub'.reservations =
    hub.reservations) (htags : ∀ {u q name p'}, hub.reservations.get? u = some q → q.Has name →
      hub'.places.get? name = some p' →
        ∃ p, hub.places.get? name = some p ∧ p.schedulingTags = p'.schedulingTags) :
    InOrder before hub' := by
  intro t u r q name p' hr hwaiting hp' hsuits hq hhas hnew
  rw [hreservations] at hr hq
  obtain ⟨p, hp, hsame⟩ := htags hq hhas hp'
  exact h hr hwaiting hp ((Reservation.suits_congr hsame).mpr hsuits) hq hhas hnew

/-- The first move of an operation that concerns reservations. -/
theorem Move.inOrder (hn : hub.Named) (hl : hub.Linked) (hm : Move o hub hub')
    (hfirst : hub.reservations = o.hub.reservations) : InOrder o.hub hub' := by
  have hplan := hl.fits.toPlanned
  -- a pass, whatever has been done to places before it
  have hpass : ∀ mid : Hub, mid.Named → mid.reservations = hub.reservations →
      InOrder o.hub (mid.schedule o.now) := by
    intro mid hmid hrs
    refine inOrder_schedule hmid (hrs.symm ▸ hplan) ?_ o.now
    intro u q hq _
    rw [← hfirst, ← hrs]
    exact hq
  have hstored : ∀ q : Place, InOrder o.hub (((hub.storePlace q).markDirty).schedule o.now) := by
    intro q
    have hw : Writes hub (hub.storePlace q).markDirty := writes_markDirty (.single (.store q))
    exact hpass _ (hw.named hn) rfl
  have hplanned : ∀ rs, Planned rs → (∀ u q, rs.get? u = some q → q.state.hasPlace = true →
      hub.reservations.get? u = some q) →
      InOrder o.hub ({ hub with reservations := rs }.schedule o.now) := by
    intro rs hrs hold
    have hmid : Named { hub with reservations := rs } := hn
    refine inOrder_schedule hmid hrs ?_ o.now
    rw [← hfirst]
    exact hold
  have hsame : ∀ hub₁ : Hub, hub₁.reservations = hub.reservations → InOrder o.hub hub₁ := by
    intro hub₁ hrs
    refine .of_old (fun hq hhas => ⟨_, ?_, hhas⟩)
    rw [← hfirst, ← hrs]
    exact hq
  cases hm with
  | edit _ _ => exact hsame _ rfl
  | retag _ _ _ => exact hstored _
  | add _ _ => exact hstored _
  | addDefault => exact hstored _
  | delete name =>
    have hw : Write hub _ := .erase name
    exact hpass _ (Writes.named (writes_markDirty (.single hw)) hn) rfl
  | acquire hp =>
    unfold completeAcquisition
    rw [hp]
    exact hstored _
  | release hp =>
    unfold completeRelease
    rw [hp]
    exact hstored _
  | attach hp => exact hsame _ (Run.reservations_attach ..)
  | replace hr _ => exact hsame _ (Run.reservations_replaceHeld hr)
  | republish handle => exact hsame _ (Run.reservations_publishHolders ..)
  | @reserve token address filters prio hop owner =>
    refine hplanned _ (hplan.insert_waiting token rfl rfl rfl) ?_
    intro u q hq hplace
    rcases SortedMap.get?_insert_eq_some_iff.mp hq with ⟨_, rfl⟩ | ⟨_, hold⟩
    · cases hplace
    · exact hold
  | cancel hop hr =>
    refine hplanned _ (hplan.filter _) ?_
    exact fun u q hq _ => (SortedMap.get?_erase_eq_some_iff.mp hq).2
  | @poll token r hr _ =>
    refine .of_old ?_
    intro u q name hq hhas
    rcases SortedMap.get?_insert_eq_some_iff.mp hq with ⟨hu, rfl⟩ | ⟨_, hold⟩
    · rw [hl.fits.keyed hr] at hu
      subst hu
      exact ⟨r, by rw [← hfirst]; exact hr, hhas⟩
    · exact ⟨q, by rw [← hfirst]; exact hold, hhas⟩
  | schedule => exact hpass hub hn rfl
  | subscribe id enable => exact hsame _ rfl
  | retries b => exact hsame _ rfl

/-- A place behind a move is new, carries the tags that it has carried, or the reservations are
still those from which the operation has started. -/
theorem Move.tags (hn : hub.Named) (hm : Move o hub hub') {name : String} {p' : Place}
    (hp' : hub'.places.get? name = some p') :
    hub.places.contains name = false ∨
      (∃ p, hub.places.get? name = some p ∧ p.schedulingTags = p'.schedulingTags) ∨
      hub.reservations = o.hub.reservations := by
  obtain ⟨places, hplacing, hbehind⟩ := hm.placing hn
  obtain ⟨p₁, hp₁, hsame⟩ : ∃ p₁, places.get? name = some p₁ ∧
      p₁.schedulingTags = p'.schedulingTags := by
    rcases hbehind with he | ⟨owners, he⟩
    · exact ⟨p', he ▸ hp', rfl⟩
    · rw [he] at hp'
      obtain ⟨p₁, hp₁, rfl⟩ := SortedMap.get?_mapValues_eq_some_iff.mp hp'
      exact ⟨p₁, hp₁, (schedulingTags_relink o.now owners p₁).symm⟩
  rw [← hsame]
  cases hplacing with
  | keep => exact Or.inr (Or.inl ⟨p₁, hp₁, rfl⟩)
  | erase _ => exact Or.inr (Or.inl ⟨p₁, (SortedMap.get?_erase_eq_some_iff.mp hp₁).2, rfl⟩)
  | add hfresh _ =>
    rcases SortedMap.get?_insert_eq_some_iff.mp hp₁ with ⟨hname, _⟩ | ⟨_, hold⟩
    · exact Or.inl (hname ▸ hfresh)
    · exact Or.inr (Or.inl ⟨p₁, hold, rfl⟩)
  | addDefault _ _ _ _ hfresh _ =>
    rcases SortedMap.get?_insert_eq_some_iff.mp hp₁ with ⟨hname, _⟩ | ⟨_, hold⟩
    · exact Or.inl (hname ▸ hfresh)
    · exact Or.inr (Or.inl ⟨p₁, hold, rfl⟩)
  | @change k p q hp hc =>
    rcases SortedMap.get?_insert_eq_some_iff.mp hp₁ with ⟨hname, rfl⟩ | ⟨_, hold⟩
    · rw [hname]
      have htags : q.tags = p.tags → ∃ p₂, hub.places.get? k = some p₂ ∧
          p₂.schedulingTags = (q.touch o.now).schedulingTags := by
        intro he
        refine ⟨p, hp, ?_⟩
        unfold Place.schedulingTags Place.touch
        rw [hc.name, he]
      cases hc with
      | edit he => exact Or.inr (Or.inl (htags he.keeps.1))
      | retag _ hfirst => exact Or.inr (Or.inr hfirst)
      | _ => exact Or.inr (Or.inl (htags rfl))
    · exact Or.inr (Or.inl ⟨p₁, hold, rfl⟩)

/-- A move that leaves the reservations alone. -/
theorem Move.stays_inOrder (hn : hub.Named) (hl : hub.Linked) (hm : Move o hub hub')
    (hsame : hub'.reservations = hub.reservations) (h : InOrder o.hub hub) :
    InOrder o.hub hub' := by
  by_cases hfirst : hub.reservations = o.hub.reservations
  · exact hm.inOrder hn hl hfirst
  · refine h.of_tags hsame ?_
    intro u q name p' hq hhas hp'
    rcases hm.tags hn hp' with hfresh | htags | hstill
    · -- the place of a reservation is not new
      obtain ⟨p, hp, _⟩ := hl.fits.suits hq hhas
      have hthere : hub.places.contains name = true := SortedMap.contains_eq_true_iff.mpr ⟨p, hp⟩
      rw [hfresh] at hthere
      cases hthere
    · exact htags
    · exact absurd hstill hfirst

theorem InOrder.of_quiet (hq : Quiet hub hub') (h : InOrder before hub) : InOrder before hub' := by
  refine h.of_tags hq.reservations ?_
  intro u q name p' _ _ hp'
  rw [hq.places] at hp'
  exact ⟨p', hp', rfl⟩

/-- An operation gives places away in the order of service. -/
theorem Passage.inOrder {tells : Bool} {l : List Attempt} (hp : Passage o tells o.hub l hub')
    (hn : o.hub.Named) (hl : o.hub.Linked) :
    InOrder o.hub hub' ∧ ∀ a ∈ l, InOrder o.hub a.hub := by
  have hlinked : ∀ {hub₁ l₁}, Passage o tells o.hub l₁ hub₁ → hub₁.Linked := fun hp₁ =>
    (hp₁.kept (fun hq hl => hl.of_quiet hq) (fun hn hl hm => hm.linked hn hl) hn hl).1
  induction hp with
  | refl => exact ⟨.of_old (fun hq hhas => ⟨_, hq, hhas⟩), fun a ha => by cases ha⟩
  | exchange _ hx ih =>
    refine ⟨ih.1.of_quiet hx.quiet, ?_⟩
    intro a ha
    rcases List.mem_append.mp ha with hold | hnew
    · exact ih.2 a hold
    · exact ih.1.of_quiet (hx.quiet_attempt hnew)
  | move hp₁ hm honce ih =>
    refine ⟨?_, ih.2⟩
    rcases honce with hfirst | hsame
    · exact hm.inOrder (hp₁.named hn) (hlinked hp₁) hfirst
    · exact hm.stays_inOrder (hp₁.named hn) (hlinked hp₁) hsame ih.1

end Hub

/-! ## Courses -/

namespace Station

variable {settings : HubSettings} {directory : Option StateDirectory} {start s t : Station}
  {turns : List Turn} {turn : Turn}

theorem served_start (h : Station.start settings directory = .ok start) : start.hub.Served := by
  obtain ⟨places, hhub, _⟩ := start_ok h
  rw [hhub]
  intro t r name p hr
  cases hr

theorem Course.served (h : Station.start settings directory = .ok start)
    (hc : Course start turns s) :
    s.hub.Served ∧ ∀ turn ∈ turns, ∀ a ∈ turn.attempts, a.hub.Served := by
  have hkept := hc.kept (P := fun hub => hub.Linked ∧ hub.Served) h
    ⟨linked_start h, served_start h⟩
    (fun hq hl => ⟨hl.1.of_quiet hq, hl.2.of_same hq.places hq.reservations⟩)
    (fun hn hl hm => ⟨hm.linked hn hl.1, hm.served hn hl.1 hl.2⟩)
  exact ⟨hkept.1.2, fun turn ht a ha => (hkept.2 turn ht a ha).2⟩

theorem Step.inOrder (hs : Step s turn t) (hn : s.hub.Named) (hf : s.hub.Filed)
    (hl : s.hub.Linked) :
    Hub.InOrder s.hub t.hub ∧ ∀ a ∈ turn.attempts, Hub.InOrder s.hub a.hub := by
  have hsame : ∀ dirty, Hub.InOrder s.hub { s.hub with dirty := dirty } := fun _ =>
    .of_old (fun hq hhas => ⟨_, hq, hhas⟩)
  rcases hs.passage hn hf with ⟨op, _, hp⟩ | ⟨_, hnone, dirty, hd⟩
  · exact hp.inOrder hn hl
  · rw [hd, hnone]
    exact ⟨hsame dirty, fun a ha => by cases ha⟩

/-- Throughout a course, and whenever the outcome of a command becomes known, no reservation waits
for a place that is neither held nor reserved. And if a turn has given a place to a reservation,
this one precedes every reservation that waits behind it for tags that the place carries. -/
theorem Course.fair_allocation (h : Station.start settings directory = .ok start)
    (hc : Course start turns s) :
    (∀ hub, (hub = s.hub ∨ ∃ turn ∈ turns, ∃ a ∈ turn.attempts, hub = a.hub) →
      ∀ r ∈ hub.reservations.values, r.state = .waiting → ∀ p ∈ hub.places.values,
        p.acquired = none → p.reservation = none →
          ¬ (SortedSet.ofList r.mainTags).isSubset p.schedulingTags = true) ∧
    ∀ turn t, Step s turn t → ∀ hub, (hub = t.hub ∨ ∃ a ∈ turn.attempts, hub = a.hub) →
      ∀ token r, hub.reservations.get? token = some r → r.state = .waiting →
      ∀ name p, hub.places.get? name = some p →
        (SortedSet.ofList r.mainTags).isSubset p.schedulingTags = true →
      ∀ token' q, hub.reservations.get? token' = some q → q.Has name →
        (∀ q₀, s.hub.reservations.get? token' = some q₀ → ¬ q₀.Has name) →
          q.precedes r = true := by
  have hsuits : ∀ {r : Reservation} {p : Place},
      (SortedSet.ofList r.mainTags).isSubset p.schedulingTags = true ↔ r.Suits p := by
    intro r p
    exact Hub.fits_filterOf_iff 0
  refine ⟨?_, ?_⟩
  · intro hub hreached r hr hwaiting p hp hfree hunreserved hsub
    have hserved : hub.Served := by
      rcases hreached with rfl | ⟨turn, hturn, a, ha, rfl⟩
      · exact (hc.served h).1
      · exact (hc.served h).2 turn hturn a ha
    obtain ⟨token, ht⟩ := SortedMap.mem_values_iff.mp hr
    obtain ⟨name, hname⟩ := SortedMap.mem_values_iff.mp hp
    exact hserved ht hwaiting hname hfree hunreserved (hsuits.mp hsub)
  · intro turn t hs hub hreached token r hr hwaiting name p hp hsub token' q hq hhas hnew
    obtain ⟨hn, hf⟩ := hc.filed h
    have hordered := hs.inOrder hn hf (hc.linked h)
    have horder : Hub.InOrder s.hub hub := by
      rcases hreached with rfl | ⟨a, ha, rfl⟩
      · exact hordered.1
      · exact hordered.2 a ha
    exact horder hr hwaiting hp (hsuits.mp hsub) hq hhas hnew

/-- Two further reservations of the board, the later one with the greater priority, and the end of
the first. -/
def contestScenes : List Scene :=
  let filters := SortedMap.ofList [("main", SortedMap.ofList [("name", "board")])]
  [⟨8, .request (Identifier.ofNat .reservation 5) (some "desk") (.reserve filters ⟨0⟩), []⟩,
   ⟨9, .request (Identifier.ofNat .reservation 6) (some "desk")
      (.reserve filters ⟨0x3ff0000000000000⟩), []⟩,
   ⟨10, .request (Identifier.ofNat .reservation 7) (some "desk")
      (.cancel (Identifier.ofNat .reservation 3).text), []⟩]

/-- The laboratory while two reservations wait for the board, which is held. -/
def contest : Station := (empty.play (labScenes ++ contestScenes)).2

/-- The release of the board. -/
def freed : Run (List (List Event)) :=
  contest.operate scripted [] 11
    (.request (Identifier.ofNat .reservation 8) (some "desk") (.release "board" none))

/-- The reservation with the greater priority gets the board, and the other one waits on. -/
theorem fair_allocation_contest :
    ∃ q r, freed.hub.reservations.get? (Identifier.ofNat .reservation 6) = some q ∧
      freed.hub.reservations.get? (Identifier.ofNat .reservation 5) = some r ∧
      q.Has "board" ∧ r.state = .waiting ∧ q.precedes r = true := by
  have hstart : Station.start ⟨1000, 1000⟩ none = .ok empty := rfl
  have hq : (freed.hub.reservations.get? (Identifier.ofNat .reservation 6)).map
      (fun q => (q.state, q.allocations)) =
        some (.allocated, SortedMap.ofList [("main", ["board"])]) := by decide +kernel
  have hr : (freed.hub.reservations.get? (Identifier.ofNat .reservation 5)).map
      (fun r => (r.state, r.mainTags)) = some (.waiting, [⟨"name", "board"⟩]) := by decide +kernel
  have hp : (freed.hub.places.get? "board").map Place.schedulingTags =
      some (SortedSet.ofList [⟨"name", "board"⟩]) := by decide +kernel
  have hbefore : (contest.hub.reservations.get? (Identifier.ofNat .reservation 6)).map
      Reservation.state = some .waiting := by decide +kernel
  obtain ⟨q, hq, hplace⟩ := Option.map_eq_some_iff.mp hq
  obtain ⟨r, hr, hwaits⟩ := Option.map_eq_some_iff.mp hr
  obtain ⟨p, hp, htags⟩ := Option.map_eq_some_iff.mp hp
  obtain ⟨hstate, hallocations⟩ := Prod.mk.inj hplace
  obtain ⟨hwaiting, hmain⟩ := Prod.mk.inj hwaits
  have hhas : q.Has "board" := ⟨by rw [hstate]; rfl, hallocations⟩
  have hstep : Step contest ⟨11, some _, freed.attempts⟩ { contest with hub := freed.hub } :=
    .operate scripted [] 11 _
  have hfair := (Course.fair_allocation hstart
    (course_play empty (labScenes ++ contestScenes))).2 _ _ hstep freed.hub (Or.inl rfl)
  refine ⟨q, r, hq, hr, hhas, hwaiting, hfair _ r hr hwaiting "board" p hp ?_ _ q hq hhas ?_⟩
  · rw [hmain, htags]
    decide +kernel
  · -- it waited when the board was released
    intro q₀ hq₀ hhas₀
    rw [show contest.hub.reservations.get? _ = some q₀ from hq₀] at hbefore
    have hidle : q₀.state = .waiting := by simpa using hbefore
    have hplace₀ := hhas₀.1
    rw [hidle] at hplace₀
    cases hplace₀

end Station

end BoardFarm
