import BoardFarm.Proofs.Agreement

/-!
# Agreement of a station with its exporters

A station starts without places and without exporters. Exporters connect, announce themselves,
answer in time and stay; places come and go, and no acquired place is deleted. Then the station and
its exporters agree between operations.

* `Hub.AgreesOn`: a hub and an exporter agree on a resource.
* `Deployment.Course.agreed`: the agreement holds throughout a course.
* `Deployment.Course.agreement`: what this means for exporters, registered or not.
-/

namespace BoardFarm

/-- What is published of a resource is what its exporter reports, and the exporter has it held for a
place just if the place is acquired and holds it. -/
structure Hub.AgreesOn (hub : Hub) (e : Exporter) (group name : String) (x : Exported) : Prop where
  entry : ∀ y ∈ hub.published, y.path.exporter = e.name → y.path.group = group →
    y.path.name = name → y.path = x.path e.name group name ∧
      hub.record y = ResourceRecord.ofReport (Exporter.report group name x)
  holder : ∀ place, x.holder = some place ↔ ∃ p, hub.places.get? place = some p ∧
    p.acquired.isSome ∧ p.holdsPath (x.path e.name group name) = true

variable {ledger : Ledger} {s : Site} {id : Nat} {l : Link} {p : Peer} {session : ExporterSession}
  {group name : String} {x : Exported}

/-! ## What the invariant means -/

theorem Agreed.keeps_iff (h : Agreed ledger s) (ho : s.hub.Orderly) {path : ResourcePath}
    {place : String} : ledger path = some place ↔ ∃ p, s.hub.places.get? place = some p ∧
      p.acquired.isSome ∧ p.holdsPath path = true := by
  rw [h.booked]
  constructor
  · rintro ⟨p, hp, hmem⟩
    refine ⟨p, hp, ?_, Place.holdsPath_eq_true_iff.mpr hmem⟩
    by_contra hfree
    rw [(ho.sole.free hp (by simpa using hfree)).1] at hmem
    cases hmem
  · rintro ⟨p, hp, _, hholds⟩
    exact ⟨p, hp, Place.holdsPath_eq_true_iff.mp hholds⟩

/-- A registered exporter is at the far end of its link, and the hub knows what it has. -/
theorem Agreed.registered (h : Agreed ledger s) (hsession : s.hub.session id = some session) :
    ∃ p rest, s.fleet.get? id = some p ∧ Acquainted s.hub.records session p.exporter rest ∧
      p.outbox = rest.map .resource ∧ p.exporter.Follows ledger := by
  obtain ⟨l, hl, hs⟩ := Hub.session_eq_some_iff.mp hsession
  obtain ⟨o, hsettled⟩ := h.settled.accord
  obtain ⟨p, hp⟩ := hsettled.peer hl
  have hat := hsettled.attuned hl hp
  rw [Errand.stageOn_idle] at hat
  cases hat with
  | unregistered hs' _ _ =>
    rw [hs] at hs'
    cases hs'
  | @registered session' known rest hs' hc hf =>
    rw [hs] at hs'
    cases hs'
    have hknown : p.exporter = known := hc.exporter
    have houtbox : p.outbox = rest.map .resource ++ [] := hc.outbox
    rw [List.append_nil] at houtbox
    rw [← hknown] at hf
    refine ⟨p, rest, hp, ?_, houtbox, hf⟩
    rw [hknown]
    exact hc.acquainted

theorem Agreed.unregistered (h : Agreed ledger s) (hp : s.fleet.get? id = some p)
    (hsession : s.hub.session id = none) (hx : p.exporter.find? group name = some x) :
    x.holder = none := by
  obtain ⟨o, hsettled⟩ := h.settled.accord
  have hlinked : (s.hub.link id).isSome := by rw [← hsettled.manned, hp]; rfl
  obtain ⟨l, hl⟩ := Option.isSome_iff_exists.mp hlinked
  cases hsettled.attuned hl hp with
  | registered hs _ _ =>
    rw [Hub.session_eq_some_iff.mpr ⟨l, hl, hs⟩] at hsession
    cases hsession
  | unregistered _ _ hu => exact hu.free hx

/-- The hub and a registered exporter agree. -/
theorem Agreed.agreesOn (h : Agreed ledger s) (ho : s.hub.Orderly)
    (hsession : s.hub.session id = some session) {e : Exporter} {rest : List ResourceReport}
    (ha : Acquainted s.hub.records session e rest) (hf : e.Follows ledger)
    (hx : e.find? group name = some x) : s.hub.AgreesOn e group name x := by
  refine ⟨?_, ?_⟩
  · intro y hy hexporter hgroup hname
    obtain ⟨id', session', g, n, hsession', hfind⟩ := Hub.mem_published_iff.mp hy
    obtain ⟨hexporter', hgroup', hname'⟩ := ho.filed.paths hsession' hfind
    have hid : id' = id := by
      refine ho.filed.names hsession' hsession ?_
      rw [← hexporter', hexporter, ha.name]
    subst hid
    rw [hsession] at hsession'
    cases hsession'
    rw [← hgroup', ← hname', hgroup, hname] at hfind
    obtain ⟨x', hx', hpath, hrecord⟩ := ha.published hfind
    rw [hx] at hx'
    cases hx'
    refine ⟨hpath, ?_⟩
    rw [Exporter.ofReport_report]
    · unfold Hub.record
      rw [hrecord]
      rfl
    · obtain ⟨_, hsettled⟩ := h.settled.accord
      rw [hf hx]
      exact hsettled.named _
  · intro place
    rw [hf hx]
    exact h.keeps_iff ho

/-- An exporter that is not registered agrees with the hub, unless another one has its name. -/
theorem Agreed.agreesOn_unregistered (h : Agreed ledger s) (ho : s.hub.Orderly) {e : Exporter}
    (hnobody : ∀ id session, s.hub.session id = some session → session.name ≠ e.name)
    (hholder : x.holder = none) : s.hub.AgreesOn e group name x := by
  have hunpublished : ∀ y ∈ s.hub.published, y.path.exporter ≠ e.name := by
    intro y hy hexporter
    obtain ⟨id, session, g, n, hsession, hfind⟩ := Hub.mem_published_iff.mp hy
    exact hnobody id session hsession ((ho.filed.paths hsession hfind).1.symm.trans hexporter)
  refine ⟨fun y hy hexporter => absurd hexporter (hunpublished y hy), ?_⟩
  intro place
  rw [← h.keeps_iff ho, hholder]
  constructor
  · intro hnone
    cases hnone
  · intro hheld
    obtain ⟨_, hsettled⟩ := h.settled.accord
    obtain ⟨y, hy, hpath⟩ := hsettled.backed (x.path e.name group name) (by rw [hheld]; rfl)
    exact absurd (by rw [hpath]; rfl) (hunpublished y hy)

/-! ## Courses of a deployment -/

/-- A hub without links and places. -/
theorem agreed_start {settings : HubSettings} {directory : Option StateDirectory} {start : Station}
    (h : Station.start settings directory = .ok start)
    (hplaces : start.hub.places = SortedMap.empty) :
    Agreed (fun _ => none) ⟨start.hub, SortedMap.empty⟩ := by
  have hfiled := Station.filed_start h
  obtain ⟨places, hhub, _⟩ := Station.start_ok h
  have hlink : ∀ id, start.hub.link id = none := by
    intro id
    rw [hhub]
    rfl
  have hheld : ∀ name, start.hub.held? name = none := by
    intro name
    unfold Hub.held?
    rw [hplaces]
    rfl
  refine ⟨?_, ?_, ?_, ?_, ?_⟩
  · intro o
    refine ⟨hfiled, ?_, ?_, ?_, ?_, fun hne => absurd rfl hne⟩
    · intro id
      rw [hlink]
      rfl
    · intro id l p hl
      rw [hlink] at hl
      cases hl
    · intro path hsome
      cases hsome
    · intro path he
      cases he
  · intro path name
    rw [Hub.keeps_iff_held?, hheld]
    constructor
    · intro he
      cases he
    · rintro ⟨l, hl, _⟩
      cases hl
  · intro name l hl
    rw [hheld] at hl
    cases hl
  · intro id x hx
    rw [hhub] at hx
    cases hx
  · intro name l hl
    rw [hheld] at hl
    cases hl

/-- Whatever happens between operations keeps the agreement. -/
theorem Agreed.cue (h : Agreed ledger s) (c : Cue) : Agreed ledger (s.step c) := by
  obtain ⟨o, hsettled⟩ := h.settled.accord
  obtain ⟨stage, haccord, hidle, hgrows⟩ := hsettled.step c
  cases hidle.mpr rfl
  generalize s.step c = s' at haccord hgrows
  have hsame := Hub.held?_of_places hgrows.places
  refine h.rewrite haccord.settled hgrows rfl rfl (fun _ hw => hw) ?_ ?_
  · intro path name
    rw [h.booked, Hub.keeps_iff_held?, Hub.keeps_iff_held?, hsame]
  · intro name l hl
    rw [hsame] at hl
    exact ⟨h.called hl, h.held hl⟩

namespace Deployment

variable {settings : HubSettings} {directory : Option StateDirectory} {start : Station}
  {d d' : Deployment}

theorem Step.agreed (hs : Step d d') (h : Agreed ledger d.site) (ho : d.station.hub.Orderly) :
    ∃ ledger', Agreed ledger' d'.site := by
  have hdirty : ∀ dirty, d.station.hub.Spares { d.station.hub with dirty := dirty } :=
    fun dirty => .of_held rfl rfl (fun _ hw => hw) (fun _ => rfl)
  cases hs with
  | cue c => exact ⟨ledger, h.cue c⟩
  | operate choose y now op hregular hrun htimely => exact h.perform ho hregular hrun htimely
  | save =>
    obtain ⟨dirty, hsaved⟩ := Station.hub_save d.station
    refine ⟨ledger, ?_⟩
    unfold site
    rw [hsaved]
    exact h.spares (hdirty dirty)
  | saveIfDirty =>
    obtain ⟨dirty, hsaved⟩ := Station.hub_saveIfDirty d.station
    refine ⟨ledger, ?_⟩
    unfold site
    rw [hsaved]
    exact h.spares (hdirty dirty)

theorem Course.orderly (h : Station.start settings directory = .ok start)
    (hc : Course ⟨start, SortedMap.empty⟩ d) : d.station.hub.Orderly := by
  obtain ⟨turns, hturns⟩ := hc.station
  exact hturns.orderly h

/-- The agreement holds throughout a course that starts without places. -/
theorem Course.agreed (h : Station.start settings directory = .ok start)
    (hplaces : start.hub.places = SortedMap.empty) (hc : Course ⟨start, SortedMap.empty⟩ d) :
    ∃ ledger, Agreed ledger d.site := by
  induction hc with
  | refl => exact ⟨_, agreed_start h hplaces⟩
  | tail hc hs ih =>
    obtain ⟨ledger, hagreed⟩ := ih
    exact hs.agreed hagreed (Course.orderly h hc)

/-- Throughout a course that starts without places, the hub and its exporters agree. A registered
exporter is at the far end of its link; each of its resources is published, or the report that
announces it is still to be read; and the hub and the exporter agree on it. Nothing is held of an
exporter that is not registered; on its resources there is agreement as well, unless another
exporter is registered under its name. -/
theorem Course.agreement (h : Station.start settings directory = .ok start)
    (hplaces : start.hub.places = SortedMap.empty) (hc : Course ⟨start, SortedMap.empty⟩ d) :
    (∀ id session, d.station.hub.session id = some session → ∃ p, d.fleet.get? id = some p ∧
      p.exporter.name = session.name ∧ ∀ group name x, p.exporter.find? group name = some x →
        ((∃ y ∈ d.station.hub.published, y.path = x.path p.exporter.name group name) ∨
          .resource (Exporter.report group name x) ∈ p.outbox) ∧
        d.station.hub.AgreesOn p.exporter group name x) ∧
    ∀ id p, d.fleet.get? id = some p → d.station.hub.session id = none →
      ∀ group name x, p.exporter.find? group name = some x → x.holder = none ∧
        ((∀ id' session, d.station.hub.session id' = some session →
          session.name ≠ p.exporter.name) → d.station.hub.AgreesOn p.exporter group name x) := by
  obtain ⟨ledger, hagreed⟩ := hc.agreed h hplaces
  have ho := hc.orderly h
  constructor
  · intro id session hsession
    obtain ⟨p, rest, hp, ha, houtbox, hf⟩ := hagreed.registered hsession
    refine ⟨p, hp, ha.name.symm, ?_⟩
    intro group name x hx
    refine ⟨?_, hagreed.agreesOn ho hsession ha hf hx⟩
    cases hfind : session.find? group name with
    | some y =>
      obtain ⟨x', hx', hpath, _⟩ := ha.published hfind
      rw [hx] at hx'
      cases hx'
      exact Or.inl ⟨y, Hub.mem_published_iff.mpr ⟨id, session, group, name, hsession, hfind⟩, hpath⟩
    | none =>
      have hawaited := (ha.awaited _).mpr ⟨group, name, x, hx, hfind, rfl⟩
      rw [houtbox]
      exact Or.inr (List.mem_map_of_mem hawaited)
  · intro id p hp hsession group name x hx
    have hholder := hagreed.unregistered hp hsession hx
    exact ⟨hholder, fun hnobody => hagreed.agreesOn_unregistered ho hnobody hholder⟩

/-! ## A small deployment -/

theorem Course.cues {start d : Deployment} (hc : Course start d) (cues : List Cue) :
    Course start ⟨{ d.station with hub := (d.site.play cues).hub }, (d.site.play cues).fleet⟩ := by
  induction cues generalizing d with
  | nil => exact hc
  | cons c rest ih => exact ih (hc.tail (.cue c))

/-- With every wait the next cues of a script are played. -/
def scripted : Strategy (List (List Cue)) := fun _ _ waits => (waits.headD [], waits.tail)

/-- An operation with a script. -/
def scene (d : Deployment) (now : Nat) (op : Operation) (waits : List (List Cue)) :
    Run (Fleet × List (List Cue)) :=
  d.station.operate (Fleet.accompany scripted) (d.fleet, waits) now op

def behind (d : Deployment) (r : Run (Fleet × List (List Cue))) : Deployment :=
  ⟨{ d.station with hub := r.hub }, r.around.1⟩

theorem Course.scene {start d : Deployment} (hc : Course start d) (now : Nat) {op : Operation}
    (waits : List (List Cue)) (hregular : op.Regular d.station.hub)
    (htimely : (d.scene now op waits).Timely) : Course start (d.behind (d.scene now op waits)) :=
  hc.tail (.operate scripted waits now op hregular rfl htimely)

def relayInventory : Inventory :=
  SortedMap.ofList [("rack", SortedMap.ofList [("relay", ⟨.powerPort, SortedMap.ofList
    [("model", .text "netio"), ("host", .text "10.0.0.1"), ("index", .int 1)]⟩)])]

/-- The exporter of a relay connects and announces itself, and a user comes. -/
def relayCues : List Cue :=
  [.opens "lab" "1" relayInventory, .takes 0, .reads 0, .reads 0,
   .client (.clientOpens (some "desk")), .client (.clientStarts 0 "alice" "1")]

def relayStart : Deployment := ⟨Station.empty, SortedMap.empty⟩

def relayReady : Deployment :=
  ⟨{ Station.empty with hub := (relayStart.site.play relayCues).hub },
    (relayStart.site.play relayCues).fleet⟩

/-- The user adds a place. -/
def relayPlaced : Deployment :=
  relayReady.behind (relayReady.scene 1
    (.request (Identifier.ofNat .reservation 1) none (.addPlace "board")) [])

/-- The place claims the relay. -/
def relayMatched : Deployment :=
  relayPlaced.behind (relayPlaced.scene 2 (.request (Identifier.ofNat .reservation 2) none
    (.addMatch "board" "lab/rack/PowerPort" none)) [])

/-- The user acquires the place, and the exporter takes the command and serves it. -/
def relayAcquisition : Run (Fleet × List (List Cue)) :=
  relayMatched.scene 3 (.request (Identifier.ofNat .reservation 3) (some "desk") (.acquire "board"))
    [[.takes 0, .serves 0, .reads 0, .reads 0]]

def relayHeld : Deployment := relayMatched.behind relayAcquisition

theorem course_relayHeld : Course relayStart relayHeld := by
  have hready : Course relayStart relayReady := Course.cues (d := relayStart) .refl relayCues
  have hplaced : Course relayStart relayPlaced :=
    hready.scene 1 [] trivial (by decide +kernel)
  have hmatched : Course relayStart relayMatched :=
    hplaced.scene 2 [] trivial (by decide +kernel)
  exact hmatched.scene 3 _ trivial (by decide +kernel)

/-- In the small deployment the exporter has the relay held for the board, and the hub agrees. -/
theorem agreement_relay : ∃ p x, relayHeld.fleet.get? 0 = some p ∧
    p.exporter.find? "rack" "relay" = some x ∧ x.holder = some "board" ∧
      relayHeld.station.hub.AgreesOn p.exporter "rack" "relay" x := by
  have hstart : Station.start ⟨1000, 1000⟩ none = .ok Station.empty := rfl
  have hagreement := Course.agreement hstart rfl course_relayHeld
  have hregistered : (relayHeld.station.hub.session 0).isSome := by decide +kernel
  obtain ⟨session, hsession⟩ := Option.isSome_iff_exists.mp hregistered
  obtain ⟨p, hp, _, hagrees⟩ := hagreement.1 0 session hsession
  have hheld : ((relayHeld.fleet.get? 0).bind (fun p => p.exporter.find? "rack" "relay")).bind
      Exported.holder = some "board" := by decide +kernel
  rw [hp] at hheld
  obtain ⟨x, hx, hholder⟩ := Option.bind_eq_some_iff.mp hheld
  exact ⟨p, x, hp, hx, hholder, (hagrees "rack" "relay" x hx).2⟩

end Deployment

end BoardFarm
