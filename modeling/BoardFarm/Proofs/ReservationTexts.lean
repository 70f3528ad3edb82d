import BoardFarm.Proofs.IdentifierSpellings
import BoardFarm.Proofs.ReservationLife

/-!
# Texts of reservations

A reservation is cancelled and polled by a text from which its token is read. There are four such
texts, each in either letter case, so two users may call a reservation by texts that differ in a
digit. The first digits of these texts tell them apart.

* `Hub.Denotes`: the texts of a reservation.
* `Hub.cancel_eq_ok_iff`, `Hub.poll_eq_ok_iff`: what cancelling and polling do with a text.
* `Station.Course.spellings`: the texts of identifiers, and of reservations throughout a course.
* `Station.surplus_spelling`: one reservation under two texts.
-/

namespace BoardFarm

namespace Hub

variable {hub hub' : Hub} {now : Nat} {text : String} {r : Reservation}

/-- A text denotes a reservation of the hub: it spells the token, with or without a surplus. -/
def Denotes (hub : Hub) (text : String) (r : Reservation) : Prop :=
  hub.reservations.get? r.token = some r ∧ ∃ surplus < 4, r.token.SpelledBy surplus text

/-- The hub behind a reservation that is cancelled. -/
def without (hub : Hub) (now : Nat) (r : Reservation) : Hub :=
  { hub with reservations := hub.reservations.erase r.token }.schedule now

/-- A reservation that is polled, and the hub behind the poll. -/
def polled (hub : Hub) (now : Nat) (r : Reservation) : Reservation × Hub :=
  if r.state.isTerminal then (r, hub)
  else
    (r.refresh now hub.settings.reservationTimeout,
      { hub with
        reservations := hub.reservations.insert r.token
          (r.refresh now hub.settings.reservationTimeout) })

theorem readToken_eq_ok_iff {token : Token} :
    readToken text = .ok token ↔ Identifier.parse .reservation text = .ok token := by
  unfold readToken
  cases Identifier.parse .reservation text <;> simp

/-- As reservations are stored under their tokens, a reservation that is found is denoted. -/
theorem findReservation_iff_denotes (h : Planned hub.reservations) :
    hub.findReservation text = .ok r ↔ hub.Denotes text r := by
  simp only [findReservation_eq_ok_iff, readToken_eq_ok_iff, Identifier.parse_eq_ok_iff]
  constructor
  · rintro ⟨token, hspelled, hr⟩
    obtain rfl := h.keyed hr
    exact ⟨hr, hspelled⟩
  · rintro ⟨hr, hspelled⟩
    exact ⟨r.token, hspelled, hr⟩

/-- What a text denotes is cancelled, and nothing else. -/
theorem cancel_eq_ok_iff (h : Planned hub.reservations) :
    hub.cancel now text = .ok hub' ↔ ∃ r, hub.Denotes text r ∧ hub' = hub.without now r := by
  simp only [← findReservation_iff_denotes h]
  constructor
  · exact cancel_ok
  · rintro ⟨r, hr, rfl⟩
    unfold cancel
    rw [hr]
    rfl

/-- What a text denotes is polled, and nothing else. -/
theorem poll_eq_ok_iff (h : Planned hub.reservations) {answer : Reservation × Hub} :
    hub.poll now text = .ok answer ↔ ∃ r, hub.Denotes text r ∧ answer = hub.polled now r := by
  have hpoll : ∀ r, hub.findReservation text = .ok r →
      hub.poll now text = .ok (hub.polled now r) := by
    intro r hr
    unfold poll polled
    rw [hr]
    dsimp only
    split <;> rfl
  simp only [← findReservation_iff_denotes h]
  constructor
  · intro hanswer
    cases hr : hub.findReservation text with
    | error e =>
      unfold poll at hanswer
      rw [hr] at hanswer
      cases hanswer
    | ok r =>
      rw [hpoll r hr] at hanswer
      exact ⟨r, rfl, (Except.ok.inj hanswer).symm⟩
  · rintro ⟨r, hr, rfl⟩
    exact hpoll r hr

/-- The first digits of two texts of a reservation agree but for a multiple of eight, and the texts
are the same but for letter case just if these digits are. -/
theorem Denotes.leadingDigits {other : String} (h : hub.Denotes text r)
    (h' : hub.Denotes other r) :
    ∃ d e, Identifier.leadingDigit text = some d ∧ Identifier.leadingDigit other = some e ∧
      d % 8 = e % 8 ∧ (SameButCase text other ↔ d = e) := by
  obtain ⟨surplus, hsurplus, hspelled⟩ := h.2
  obtain ⟨surplus', hsurplus', hspelled'⟩ := h'.2
  have hd := hspelled.leadingDigit hsurplus
  have he := hspelled'.leadingDigit hsurplus'
  refine ⟨_, _, hd, he, by omega, ?_⟩
  rw [Identifier.sameButCase_iff (Identifier.parse_eq_ok_iff.mpr h.2)
    (Identifier.parse_eq_ok_iff.mpr h'.2), hd, he, Option.some_inj]

end Hub

namespace Station

variable {settings : HubSettings} {directory : Option StateDirectory} {start s : Station}
  {turns : List Turn}

/-- A text is read as an identifier just if it spells it with a surplus of two bits, and it is the
text of that identifier, but for letter case, just if its first digit is less than eight. Throughout
a course, cancelling and polling take a text for the reservation whose token is read from it, so
two texts of a reservation are the same but for letter case just if their first digits are. -/
theorem Course.spellings (h : Station.start settings directory = .ok start)
    (hc : Course start turns s) :
    (∀ (kind : IdKind) (text : String) (id : Identifier kind),
      (Identifier.parse kind text = .ok id ↔ ∃ surplus < 4, id.SpelledBy surplus text) ∧
      (Identifier.parse kind text = .ok id →
        (SameButCase text id.text ↔ ∃ d < 8, Identifier.leadingDigit text = some d))) ∧
    (∀ now text hub', s.hub.cancel now text = .ok hub' ↔
      ∃ r, s.hub.Denotes text r ∧ hub' = s.hub.without now r) ∧
    (∀ now text answer, s.hub.poll now text = .ok answer ↔
      ∃ r, s.hub.Denotes text r ∧ answer = s.hub.polled now r) ∧
    ∀ text other r, s.hub.Denotes text r → s.hub.Denotes other r →
      ∃ d e, Identifier.leadingDigit text = some d ∧ Identifier.leadingDigit other = some e ∧
        d % 8 = e % 8 ∧ (SameButCase text other ↔ d = e) := by
  have hplanned := (hc.linked h).fits.toPlanned
  refine ⟨fun kind text id => ⟨Identifier.parse_eq_ok_iff, Identifier.sameButCase_text_iff⟩, ?_, ?_,
    fun text other r => Hub.Denotes.leadingDigits⟩
  · exact fun now text hub' => Hub.cancel_eq_ok_iff hplanned
  · exact fun now text answer => Hub.poll_eq_ok_iff hplanned

/-! ## One reservation under two texts -/

/-- The text of the reservation in the small laboratory. -/
def plainToken : String := "rsv_00000000000000000000000003"

/-- The same text, but for a first digit that is eight more. -/
def surplusToken : String := "rsv_80000000000000000000000003"

theorem parse_plainToken :
    Identifier.parse .reservation plainToken = .ok (Identifier.ofNat .reservation 3) := by
  decide +kernel

theorem parse_surplusToken :
    Identifier.parse .reservation surplusToken = .ok (Identifier.ofNat .reservation 3) := by
  decide +kernel

theorem reservation_lab : ∃ r,
    lab.hub.reservations.get? (Identifier.ofNat .reservation 3) = some r ∧
      r.token = Identifier.ofNat .reservation 3 := by
  have hbooked : (lab.hub.reservations.get? (Identifier.ofNat .reservation 3)).map
      Reservation.token = some (Identifier.ofNat .reservation 3) := by decide +kernel
  exact Option.map_eq_some_iff.mp hbooked

/-- In the small laboratory both texts denote the reservation, and the second one is not the text
of its token, whatever the letter case. -/
theorem spellings_lab :
    Station.start ⟨1000, 1000⟩ none = .ok empty ∧
      Course empty (empty.play labScenes).1 lab ∧
      ∃ r, lab.hub.Denotes plainToken r ∧ lab.hub.Denotes surplusToken r ∧
        ¬ SameButCase surplusToken r.token.text := by
  have hstart : Station.start ⟨1000, 1000⟩ none = .ok empty := rfl
  have hcourse := course_play empty labScenes
  obtain ⟨hread, _⟩ := Course.spellings hstart hcourse
  obtain ⟨r, hr, htoken⟩ := reservation_lab
  rw [← htoken] at hr
  have hplain : Identifier.parse .reservation plainToken = .ok r.token :=
    htoken ▸ parse_plainToken
  have hsurplus : Identifier.parse .reservation surplusToken = .ok r.token :=
    htoken ▸ parse_surplusToken
  refine ⟨hstart, hcourse, r, ⟨hr, (hread _ _ _).1.mp hplain⟩, ⟨hr, (hread _ _ _).1.mp hsurplus⟩,
    fun hsame => ?_⟩
  obtain ⟨d, hsmall, hd⟩ := ((hread _ _ _).2 hsurplus).mp hsame
  have hfirst : Identifier.leadingDigit surplusToken = some 8 := by decide
  rw [hfirst] at hd
  cases hd
  omega

/-- Two texts that differ in their first digit are read as one token. Polling either answers with
the reservation, and cancelling either removes it. -/
theorem surplus_spelling :
    (¬ ∀ (kind : IdKind) (text : String) (id : Identifier kind),
      Identifier.parse kind text = .ok id → SameButCase text id.text) ∧
    Station.start ⟨1000, 1000⟩ none = .ok empty ∧
    Course empty (empty.play labScenes).1 lab ∧
    ¬ SameButCase surplusToken plainToken ∧
    (lab.hub.poll 8 surplusToken = lab.hub.poll 8 plainToken ∧
      (lab.hub.poll 8 plainToken).toOption.map (fun e => e.1.token.text) = some plainToken) ∧
    lab.hub.cancel 8 surplusToken = lab.hub.cancel 8 plainToken ∧
      (lab.hub.cancel 8 plainToken).toOption.map (fun hub => hub.reservations.size) = some 0 := by
  have hdiffer : ¬ SameButCase surplusToken plainToken := fun hsame =>
    absurd hsame.map_toUpper (by decide)
  have hown : (Identifier.ofNat .reservation 3).text = plainToken := by decide
  obtain ⟨r, hr, _⟩ := reservation_lab
  have hfound : ∀ text,
      Identifier.parse .reservation text = .ok (Identifier.ofNat .reservation 3) →
      lab.hub.findReservation text = .ok r := fun text hread =>
    Hub.findReservation_eq_ok_iff.mpr ⟨_, Hub.readToken_eq_ok_iff.mpr hread, hr⟩
  have hplain := hfound _ parse_plainToken
  have hsurplus := hfound _ parse_surplusToken
  refine ⟨fun h => ?_, rfl, course_play empty labScenes, hdiffer, ⟨?_, by decide +kernel⟩, ?_,
    by decide +kernel⟩
  · have hsame := h _ _ _ parse_surplusToken
    rw [hown] at hsame
    exact hdiffer hsame
  · unfold Hub.poll
    rw [hsurplus, hplain]
  · unfold Hub.cancel
    rw [hsurplus, hplain]

end Station

end BoardFarm
