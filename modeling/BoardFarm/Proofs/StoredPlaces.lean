import BoardFarm.Proofs.NamesApart
import BoardFarm.Proofs.Saving

/-!
# Stored places come back

Matches are stored part by part and read back as one pattern, the parts joined by slashes. This
gives the same match because every match of a place comes from a pattern: the parts of a pattern
have no slashes, none is empty, and each of them compiles.

* `ResourceMatch.Written`: matches that come from a pattern.
* `Place.stored`: what is stored of a place, as a place.
* `Station.Course.reload`: a station that starts behind a save.
-/

namespace BoardFarm

/-! ## Patterns -/

theorem splitSlashes_ne_nil (l : List Char) : splitSlashes l ≠ [] := by
  cases l with
  | nil => simp [splitSlashes]
  | cons c rest =>
    unfold splitSlashes
    split
    · simp
    · split <;> simp

/-- Joined by slashes, the parts are the whole text. -/
theorem intercalate_splitSlashes (l : List Char) : ['/'].intercalate (splitSlashes l) = l := by
  induction l with
  | nil => rfl
  | cons c rest ih =>
    obtain ⟨part, parts, hsplit⟩ := List.exists_cons_of_ne_nil (splitSlashes_ne_nil rest)
    rw [hsplit] at ih
    unfold splitSlashes
    rw [hsplit]
    split
    · rename_i hc
      rw [List.intercalate_cons_cons, ih, hc]
      rfl
    · -- the character belongs to the first part
      rw [← ih]
      cases parts with
      | nil => simp [List.intercalate]
      | cons next more => simp [List.intercalate_cons_cons]

@[simp] theorem nonEmpty?_nonEmpty? (s : Option String) : nonEmpty? (nonEmpty? s) = nonEmpty? s := by
  unfold nonEmpty?
  rw [Option.filter_filter]
  simp

namespace ResourceMatch

/-- The texts of the parts. -/
def parts (m : ResourceMatch) : List String :=
  [m.exporter.text, m.group.text, m.cls.text] ++ (m.name.map (·.text)).toList

theorem ofComponents?_eq_some {l : List String} {rename : Option String} {m : ResourceMatch}
    (h : ofComponents? l rename = some m) : l = m.parts ∧ m.rename = rename := by
  unfold ofComponents? at h
  split at h
  · simp only [bind, Option.bind_eq_some_iff] at h
    obtain ⟨e, he, g, hg, c, hc, hm⟩ := h
    cases hm
    refine ⟨?_, rfl⟩
    rw [← Component.text_of_ofText? he, ← Component.text_of_ofText? hg,
      ← Component.text_of_ofText? hc]
    rfl
  · simp only [bind, Option.bind_eq_some_iff] at h
    obtain ⟨e, he, g, hg, c, hc, n, hn, hm⟩ := h
    cases hm
    refine ⟨?_, rfl⟩
    rw [← Component.text_of_ofText? he, ← Component.text_of_ofText? hg,
      ← Component.text_of_ofText? hc, ← Component.text_of_ofText? hn]
    rfl
  · cases h

theorem toList_text (m : ResourceMatch) :
    m.text.toList = ['/'].intercalate (m.parts.map String.toList) := by
  cases hname : m.name <;> simp [text, view, MatchView.pattern, parts, hname, List.intercalate]

/-- A match has the text of the pattern from which it comes. -/
theorem parse_ok {pattern : String} {rename : Option String} {m : ResourceMatch}
    (h : parse pattern rename = .ok m) : m.text = pattern ∧ m.rename = nonEmpty? rename := by
  unfold parse at h
  dsimp only at h
  split at h
  · cases h
  · split at h
    · cases h
    · split at h
      · rename_i hm
        cases h
        obtain ⟨hparts, hrename⟩ := ofComponents?_eq_some hm
        refine ⟨String.toList_injective ?_, hrename⟩
        calc m.text.toList
            = ['/'].intercalate (m.parts.map String.toList) := m.toList_text
          _ = ['/'].intercalate (splitSlashes pattern.toList) := by
              rw [← hparts]
              simp
          _ = pattern.toList := intercalate_splitSlashes pattern.toList
      · cases h

/-- The match comes from a pattern. -/
def Written (m : ResourceMatch) : Prop := ∃ pattern rename, parse pattern rename = .ok m

/-- The parts of a match that comes from a pattern are read back as the same match. -/
theorem Written.ofView_view {m : ResourceMatch} (h : m.Written) : ofView m.view = .ok m := by
  obtain ⟨pattern, rename, hm⟩ := h
  obtain ⟨htext, hrename⟩ := parse_ok hm
  have hview : ofView m.view = parse m.text m.rename := rfl
  rw [hview, htext, hrename, ← hm]
  unfold parse
  rw [nonEmpty?_nonEmpty?]

end ResourceMatch

namespace PlaceDocument

theorem written_toPatterns {views : List MatchView} {l : List ResourceMatch}
    (h : toPatterns views = .ok l) : ∀ m ∈ l, m.Written := by
  induction views generalizing l with
  | nil =>
    cases h
    exact fun m hm => by cases hm
  | cons v rest ih =>
    unfold toPatterns at h
    split at h
    · cases h
    · rename_i m hm
      split at h
      · cases h
      · rename_i ms hms
        cases h
        intro m' hm'
        rcases List.mem_cons.mp hm' with rfl | hrest
        · exact ⟨v.pattern, v.rename, hm⟩
        · exact ih hms m' hrest

/-- Matches that come from patterns are read back. -/
theorem toPatterns_view {l : List ResourceMatch} (h : ∀ m ∈ l, m.Written) :
    toPatterns (l.map ResourceMatch.view) = .ok l := by
  induction l with
  | nil => rfl
  | cons m rest ih =>
    rw [List.map_cons, toPatterns, (h m (List.mem_cons_self ..)).ofView_view,
      ih (fun m' hm' => h m' (List.mem_cons_of_mem m hm'))]

end PlaceDocument

/-- What is stored of a place, as a place: its configuration without its owner, what it holds,
further users and its reservation. -/
def Place.stored (p : Place) : Place :=
  { p with acquired := none, held := [], allowed := SortedMap.empty, reservation := none }

theorem PlaceDocument.toPlace_ofPlace {p : Place} (h : ∀ m ∈ p.patterns, m.Written) :
    (ofPlace p).toPlace p.name = .ok p.stored := by
  unfold toPlace ofPlace
  rw [toPatterns_view h]
  rfl

theorem PlaceDocument.written_toPlace {name : String} {d : PlaceDocument} {p : Place}
    (h : d.toPlace name = .ok p) : ∀ m ∈ p.patterns, m.Written := by
  unfold toPlace at h
  split at h
  · cases h
  · rename_i l hl
    cases h
    exact written_toPatterns hl

/-! ## Matches of places -/

namespace Hub

/-- Every match of a place comes from a pattern. -/
def Written (hub : Hub) : Prop :=
  ∀ k p, hub.places.get? k = some p → ∀ m ∈ p.patterns, m.Written

variable {o : Occasion} {hub hub' : Hub}

theorem Change.written {name : String} {p q : Place} (hc : Change o hub name p q)
    (h : ∀ m ∈ p.patterns, m.Written) : ∀ m ∈ q.patterns, m.Written := by
  cases hc with
  | edit he =>
    cases he with
    | addPattern hm =>
      intro m' hm'
      rcases List.mem_append.mp hm' with hold | hnew
      · exact h m' hold
      · rw [List.mem_singleton.mp hnew]
        exact ⟨_, _, hm⟩
    | deletePattern test => exact fun m hm => h m (List.mem_of_mem_eraseP hm)
    | _ => exact h
  | _ => exact h

theorem Placing.written {places : SortedMap String Place} (hp : Placing o hub places)
    (h : hub.Written) {k : String} {p : Place} (hk : places.get? k = some p) :
    ∀ m ∈ p.patterns, m.Written := by
  cases hp with
  | keep => exact h k p hk
  | erase name => exact h k p (SortedMap.get?_erase_eq_some_iff.mp hk).2
  | add _ _ =>
    rcases SortedMap.get?_insert_eq_some_iff.mp hk with ⟨_, rfl⟩ | ⟨_, hold⟩
    · exact fun m hm => by cases hm
    · exact h k p hold
  | addDefault _ _ _ _ _ hm =>
    rcases SortedMap.get?_insert_eq_some_iff.mp hk with ⟨_, rfl⟩ | ⟨_, hold⟩
    · intro m' hm'
      rw [List.mem_singleton.mp hm']
      exact ⟨_, _, hm⟩
    · exact h k p hold
  | change hp hc =>
    rcases SortedMap.get?_insert_eq_some_iff.mp hk with ⟨_, rfl⟩ | ⟨_, hold⟩
    · exact hc.written (h _ _ hp)
    · exact h k p hold

theorem patterns_relink (now : Nat) (owners : SortedMap String Token) (p : Place) :
    (relink now owners p).patterns = p.patterns := by
  unfold relink
  split <;> rfl

theorem Move.written (hn : hub.Named) (hm : Move o hub hub') (h : hub.Written) :
    hub'.Written := by
  intro k p hk
  obtain ⟨places, hplacing, he | ⟨owners, he⟩⟩ := hm.placing hn
  · rw [he] at hk
    exact hplacing.written h hk
  · rw [he] at hk
    obtain ⟨q, hq, rfl⟩ := SortedMap.get?_mapValues_eq_some_iff.mp hk
    rw [patterns_relink]
    exact hplacing.written h hq

end Hub

namespace Station

variable {settings : HubSettings} {directory : Option StateDirectory} {start s : Station}
  {turns : List Turn}

theorem written_loadPlaces {d : StateDirectory} {places : SortedMap String Place}
    (h : d.loadPlaces = .ok places) {k : String} {p : Place} (hp : places.get? k = some p) :
    ∀ m ∈ p.patterns, m.Written := by
  unfold StateDirectory.loadPlaces at h
  split at h
  · cases h
    simp at hp
  · cases h
  · cases h
  · split at h
    · cases h
    · obtain ⟨document, _, hdoc⟩ := SortedMap.get?_of_checkValues h hp
      cases ht : PlaceDocument.toPlace k document with
      | error e =>
        rw [ht] at hdoc
        cases hdoc
      | ok q =>
        rw [ht] at hdoc
        cases hdoc
        exact PlaceDocument.written_toPlace ht

theorem written_start (h : Station.start settings directory = .ok start) : start.hub.Written := by
  cases directory with
  | none =>
    cases h
    exact fun k p hk => by cases hk
  | some d =>
    obtain ⟨places, hl, hhub⟩ := start_some_ok h
    rw [hhub]
    exact fun k p hk => written_loadPlaces hl hk

/-- A station starts with the places that are stored. -/
theorem start_stored {hub : Hub} {d : StateDirectory} (hn : hub.Named) (hw : hub.Written)
    (hd : d.entry placesFile = .text (PlaceDocument.write hub.placeDocuments))
    (hread : PlaceDocument.read (PlaceDocument.write hub.placeDocuments) =
      some hub.placeDocuments) (settings : HubSettings) :
    Station.start settings (some d) =
      .ok ⟨Hub.new settings (hub.places.mapValues (fun _ p => p.stored)), some d⟩ := by
  have hload : d.loadPlaces = .ok (hub.places.mapValues (fun _ p => p.stored)) := by
    unfold StateDirectory.loadPlaces
    rw [hd]
    dsimp only
    rw [hread]
    refine SortedMap.checkValues_mapValues ?_
    intro k p hk
    have hplace := PlaceDocument.toPlace_ofPlace (hw k p hk)
    rw [hn k p hk] at hplace
    rw [hplace]
    rfl
  unfold Station.start
  dsimp only
  rw [hload]

theorem Course.written (h : Station.start settings directory = .ok start)
    (hc : Course start turns s) : s.hub.Written :=
  (hc.kept h (written_start h) (fun hq hw k p hk => hw k p (hq.places ▸ hk))
    (fun hn hw hm => hm.written hn hw)).1

/-- Behind a save, a station starts with exactly the configuration of its places. The text of the
stored places is taken to be read back as what was written. -/
theorem Course.reload {d : StateDirectory} (hd : d.Open)
    (h : Station.start settings (some d) = .ok start) (hc : Course start turns s)
    (hread : PlaceDocument.read (PlaceDocument.write s.hub.placeDocuments) =
      some s.hub.placeDocuments) (settings' : HubSettings) :
    ∃ d', s.save = (some true, ⟨{ s.hub with dirty := false }, some d'⟩) ∧
      Station.start settings' (some d') =
        .ok ⟨Hub.new settings' (s.hub.places.mapValues (fun _ p => p.stored)), some d'⟩ := by
  obtain ⟨d₁, hs, hopen⟩ := hc.directory (directory_start h) hd
  exact ⟨_, save_open hs hopen, start_stored (hc.filed h).1 (hc.written h)
    (d₁.entry_store_places s.hub) hread settings'⟩

/-- A station with an empty directory. -/
def archive : Station := { empty with directory := some (.present SortedMap.empty) }

/-- The place of the small laboratory, which is acquired, gets an alias and a match with a client
name. -/
def archiveScenes : List Scene :=
  labScenes ++
  [⟨8, .request (Identifier.ofNat .reservation 5) none (.addAlias "board" "bench"), []⟩,
   ⟨9, .request (Identifier.ofNat .reservation 6) none
      (.addMatch "board" "*/9/*/lamp" (some "lamp")), []⟩]

/-- The place comes back with its configuration, and free. -/
theorem reload_archive :
    ∃ d', (archive.play archiveScenes).2.save =
        (some true, ⟨{ (archive.play archiveScenes).2.hub with dirty := false }, some d'⟩) ∧
      Station.start ⟨1000, 1000⟩ (some d') =
        .ok ⟨Hub.new ⟨1000, 1000⟩ ((archive.play archiveScenes).2.hub.places.mapValues
          (fun _ p => p.stored)), some d'⟩ := by
  have hstart : Station.start ⟨1000, 1000⟩ (some (.present SortedMap.empty)) = .ok archive := rfl
  have hread : PlaceDocument.read
        (PlaceDocument.write (archive.play archiveScenes).2.hub.placeDocuments) =
      some (archive.play archiveScenes).2.hub.placeDocuments := by
    decide +kernel
  exact Course.reload StateDirectory.open_empty hstart (course_play archive archiveScenes) hread _

end Station

end BoardFarm
