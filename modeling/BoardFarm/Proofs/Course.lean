import BoardFarm.Hub.Request
import BoardFarm.Hub.Station
import BoardFarm.Hub.Synchronization

/-!
# Courses of a station

A station is asked for one operation after another, and saves its state in between. Nothing is
assumed about the order of the operations, the readings of the clock, or what the surroundings
do while an operation waits for an answer. An operation goes on to its end, though: it is not given
up while it waits for an answer, even if nobody is there any more who wants to know its result.

* `Run.perform`: what an operation does.
* `Station.Step`: one turn of a station.
* `Station.Course`: the turns from a start to a later state, between two operations.
* `Station.Itinerary`: the same with the stations before the turns.
* `Station.Course.invariant`: what every operation keeps holds throughout a course.
-/

namespace BoardFarm

/-- What a hub does when no operation is under way: it notices an event, takes a message of a
client over, answers a request, carries a piece of waiting work of a link out, or makes one of
its regular passes. A pass of reconciliation reads the clock many times before it is done. -/
inductive Operation where
  | event (e : Event)
  | message (client : Nat) (m : ClientRequest)
  | request (token : Token) (address : Option String) (request : Request)
  | followUp (link : Nat)
  | schedule
  | synchronize (readings : List Nat)
  deriving DecidableEq, Repr

/-- An operation at a moment of the clock. A synchronization also reads the clock before each of its
commands and behind it. -/
def Run.perform {ω : Type} (react : Surroundings ω) (now : Nat) (op : Operation) (r : Run ω) :
    Run ω :=
  match op with
  | .event e => r.modify (fun hub => hub.apply e)
  | .message client m => r.modify (fun hub => hub.hearClient client m)
  | .request token address request => (r.serve react now token address request).2
  | .followUp link => r.nextFollowUp react now link
  | .schedule => r.modify (fun hub => hub.schedule now)
  | .synchronize readings => (r.synchronize react ⟨readings, now⟩).2

/-- A turn of a station: the reading of the clock, the operation, or none where the state is
saved, and the commands that the operation has tried. -/
structure Turn where
  now : Nat
  operation : Option Operation
  attempts : List Attempt

namespace Station

/-- An operation on the hub of a station. -/
def operate {ω : Type} (s : Station) (react : Surroundings ω) (around : ω) (now : Nat)
    (op : Operation) : Run ω :=
  (Run.start s.hub around).perform react now op

/-- One turn of a station. -/
inductive Step (s : Station) : Turn → Station → Prop
  | operate {ω : Type} (react : Surroundings ω) (around : ω) (now : Nat) (op : Operation) :
      Step s ⟨now, some op, (s.operate react around now op).attempts⟩
        { s with hub := (s.operate react around now op).hub }
  | save (now : Nat) : Step s ⟨now, none, []⟩ s.save.2
  | saveIfDirty (now : Nat) : Step s ⟨now, none, []⟩ s.saveIfDirty.2

/-- The turns that lead from a station to a later state of it. -/
inductive Course (start : Station) : List Turn → Station → Prop
  | start : Course start [] start
  | step {turns : List Turn} {s : Station} {turn : Turn} {t : Station}
      (course : Course start turns s) (step : Step s turn t) : Course start (turns ++ [turn]) t

/-- Saving only clears or sets the mark of a change. -/
theorem hub_saveIfDirty (s : Station) :
    ∃ dirty, s.saveIfDirty.2.hub = { s.hub with dirty := dirty } := by
  unfold saveIfDirty
  split
  · exact ⟨s.hub.dirty, rfl⟩
  · split
    · split
      · exact ⟨s.hub.dirty, rfl⟩
      · exact ⟨false, rfl⟩
    · exact ⟨s.hub.dirty, rfl⟩

theorem hub_save (s : Station) : ∃ dirty, s.save.2.hub = { s.hub with dirty := dirty } := by
  obtain ⟨dirty, hd⟩ := hub_saveIfDirty { s with hub := s.hub.markDirty }
  exact ⟨dirty, hd⟩

/-- What holds at the start, does not depend on the mark of a change, and is kept by every
operation holds throughout a course. -/
theorem Course.invariant {P : Hub → Prop} {start s : Station} {turns : List Turn}
    (hc : Course start turns s) (hstart : P start.hub)
    (hdirty : ∀ hub dirty, P hub → P { hub with dirty := dirty })
    (hop : ∀ {ω : Type} (react : Surroundings ω) (around : ω) (now : Nat) (op : Operation)
      (hub : Hub), P hub → P ((Run.start hub around).perform react now op).hub) :
    P s.hub := by
  induction hc with
  | start => exact hstart
  | step _ hs ih =>
    cases hs with
    | operate react around now op => exact hop react around now op _ ih
    | save now =>
      obtain ⟨dirty, hd⟩ := hub_save _
      rw [hd]
      exact hdirty _ _ ih
    | saveIfDirty now =>
      obtain ⟨dirty, hd⟩ := hub_saveIfDirty _
      rw [hd]
      exact hdirty _ _ ih

/-- A course with the stations before its turns. -/
inductive Itinerary (start : Station) : List (Station × Turn) → Station → Prop
  | start : Itinerary start [] start
  | step {l : List (Station × Turn)} {s : Station} {turn : Turn} {t : Station}
      (itinerary : Itinerary start l s) (step : Step s turn t) :
      Itinerary start (l ++ [(s, turn)]) t

theorem Itinerary.course {start s : Station} {l : List (Station × Turn)}
    (hi : Itinerary start l s) : Course start (l.map Prod.snd) s := by
  induction hi with
  | start => exact .start
  | step _ hs ih =>
    rw [List.map_append]
    exact ih.step hs

theorem Course.itinerary {start s : Station} {turns : List Turn} (hc : Course start turns s) :
    ∃ l, l.map Prod.snd = turns ∧ Itinerary start l s := by
  induction hc with
  | start => exact ⟨[], rfl, .start⟩
  | step _ hs ih =>
    obtain ⟨l, hl, hi⟩ := ih
    refine ⟨_, ?_, hi.step hs⟩
    rw [List.map_append, hl]
    rfl

/-! ## Scripted courses -/

/-- An operation at a moment of the clock, with the events of each wait. -/
structure Scene where
  now : Nat
  operation : Operation
  waits : List (List Event)

/-- Surroundings that follow a script: with every wait the next events of it happen. -/
def scripted : Surroundings (List (List Event)) := fun _ waits => (waits.headD [], waits.tail)

/-- The turns of some scenes, and the station behind them. -/
def play (s : Station) : List Scene → List Turn × Station
  | [] => ([], s)
  | e :: rest =>
    let r := s.operate scripted e.waits e.now e.operation
    let (turns, t) := play { s with hub := r.hub } rest
    (⟨e.now, some e.operation, r.attempts⟩ :: turns, t)

theorem Course.play {start s : Station} {turns : List Turn} (hc : Course start turns s)
    (scenes : List Scene) :
    Course start (turns ++ (s.play scenes).1) (s.play scenes).2 := by
  induction scenes generalizing s turns with
  | nil => simpa [Station.play] using hc
  | cons e rest ih =>
    have hnext := ih (hc.step (.operate scripted e.waits e.now e.operation))
    rw [List.append_assoc] at hnext
    exact hnext

/-- The turns of some scenes, with the stations before them. -/
def stages (s : Station) : List Scene → List (Station × Turn)
  | [] => []
  | e :: rest =>
    let r := s.operate scripted e.waits e.now e.operation
    (s, ⟨e.now, some e.operation, r.attempts⟩) :: stages { s with hub := r.hub } rest

theorem Itinerary.stages {start s : Station} {l : List (Station × Turn)}
    (hi : Itinerary start l s) (scenes : List Scene) :
    Itinerary start (l ++ s.stages scenes) (s.play scenes).2 := by
  induction scenes generalizing s l with
  | nil => simpa [Station.stages, Station.play] using hi
  | cons e rest ih =>
    have hnext := ih (hi.step (.operate scripted e.waits e.now e.operation))
    rw [List.append_assoc] at hnext
    exact hnext

theorem itinerary_stages (s : Station) (scenes : List Scene) :
    Itinerary s (s.stages scenes) (s.play scenes).2 :=
  Itinerary.start.stages scenes

theorem course_play (s : Station) (scenes : List Scene) :
    Course s (s.play scenes).1 (s.play scenes).2 :=
  Course.start.play scenes

/-- A station without stored places. -/
def empty : Station := ⟨Hub.new ⟨1000, 1000⟩ SortedMap.empty, none⟩

/-- A report of the only resource of a small laboratory. -/
def labReport (holder : String) : ExporterMessage :=
  .resource ⟨some ("rack", "relay"), "PowerPort", SortedMap.empty, holder, true⟩

/-- An exporter publishes a resource. A user, who follows places and resources, adds a place that
claims it, reserves the place, and acquires it. -/
def labScenes : List Scene :=
  [⟨0, .event .exporterOpens, []⟩,
   ⟨0, .event (.exporterSends 0 (.startup "lab" "1")), []⟩,
   ⟨1, .event (.exporterSends 0 (labReport "")), []⟩,
   ⟨2, .event (.clientOpens (some "desk")), []⟩,
   ⟨2, .message 0 (.startup "alice" "1"), []⟩,
   ⟨3, .message 0 (.subscribe (some true) (some true)), []⟩,
   ⟨4, .request (Identifier.ofNat .reservation 1) none (.addPlace "board"), []⟩,
   ⟨5, .request (Identifier.ofNat .reservation 2) none
      (.addMatch "board" "lab/rack/PowerPort" none), []⟩,
   ⟨6, .request (Identifier.ofNat .reservation 3) (some "desk")
      (.reserve (SortedMap.ofList [("main", SortedMap.ofList [("name", "board")])]) ⟨0⟩), []⟩,
   ⟨7, .request (Identifier.ofNat .reservation 4) (some "desk") (.acquire "board"),
      [[.exporterTakes 0, .exporterTakes 0, .exporterSends 0 (labReport "board"),
        .exporterSends 0 (.response Answer.done)]]⟩]

/-- The small laboratory behind its scenes. -/
def lab : Station := (empty.play labScenes).2

/-! ## Starts -/

/-- A stored place comes back free. -/
theorem toPlace_ok {name : String} {d : PlaceDocument} {p : Place}
    (h : d.toPlace name = .ok p) :
    p.name = name ∧ p.acquired = none ∧ p.held = [] ∧ p.allowed = SortedMap.empty ∧
      p.reservation = none := by
  unfold PlaceDocument.toPlace at h
  split at h
  · cases h
  · cases h
    exact ⟨rfl, rfl, rfl, rfl, rfl⟩

theorem loadPlaces_ok {d : StateDirectory} {places : SortedMap String Place}
    (h : d.loadPlaces = .ok places) {k : String} {p : Place} (hp : places.get? k = some p) :
    p.name = k ∧ p.acquired = none ∧ p.held = [] ∧ p.allowed = SortedMap.empty ∧
      p.reservation = none := by
  unfold StateDirectory.loadPlaces at h
  split at h
  · cases h
    simp at hp
  · cases h
  · cases h
  · split at h
    · cases h
    · obtain ⟨document, _, hdoc⟩ := SortedMap.get?_of_checkValues h hp
      cases ht : PlaceDocument.toPlace k document with
      | error e =>
        rw [ht] at hdoc
        cases hdoc
      | ok q =>
        rw [ht] at hdoc
        cases hdoc
        exact toPlace_ok ht

/-- A station starts with free places, each under its name, and nothing else. -/
theorem start_ok {settings : HubSettings} {directory : Option StateDirectory} {s : Station}
    (h : Station.start settings directory = .ok s) :
    ∃ places : SortedMap String Place, s.hub = Hub.new settings places ∧
      ∀ k p, places.get? k = some p →
        p.name = k ∧ p.acquired = none ∧ p.held = [] ∧ p.allowed = SortedMap.empty ∧
          p.reservation = none := by
  unfold Station.start at h
  split at h
  · cases h
    exact ⟨SortedMap.empty, rfl, fun k p hp => by simp at hp⟩
  · split at h
    · cases h
    · rename_i places hl
      cases h
      exact ⟨places, rfl, fun k p hp => loadPlaces_ok hl hp⟩

end Station

end BoardFarm
