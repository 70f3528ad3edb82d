import BoardFarm.Proofs.Course

/-!
# Saves

A save writes the places and then the published resources, and may come to an end in between. A
directory is open if nothing stands in the way of these files. An empty directory is open, and it
stays open whatever is saved, so saves succeed.

* `StateDirectory.Open`: directories in which the state can be saved.
* `StateDirectory.store`: a directory behind some written files.
* `StateDirectory.write_files_cases`, `Station.saveIfDirty_cases`: what a save can come to.
* `Station.saveIfDirty_open`, `Station.save_open`: saves into an open directory.
* `Station.Course.directory`: directories throughout a course.
-/

namespace BoardFarm

namespace StateDirectory

/-- The directory can be created, and no directory stands in the place of a file. -/
structure Open (d : StateDirectory) : Prop where
  creatable : d ≠ .blocked
  places : d.entry placesFile ≠ .directory
  resources : d.entry resourcesFile ≠ .directory

theorem open_empty : (present SortedMap.empty).Open where
  creatable := fun h => by cases h
  places := fun h => by cases h
  resources := fun h => by cases h

/-- The directory behind some written files. -/
def store (files : List (String × String)) (d : StateDirectory) : StateDirectory :=
  present (files.foldl (fun entries f => entries.insert f.1 (.text f.2)) d.entries)

theorem entry_store_cons (f : String × String) (rest : List (String × String))
    (d : StateDirectory) (name : String) :
    (store (f :: rest) d).entry name =
      (store rest (present (d.entries.insert f.1 (.text f.2)))).entry name := rfl

theorem entry_insert (d : StateDirectory) (file content name : String) :
    (present (d.entries.insert file (.text content))).entry name =
      if file = name then .text content else d.entry name := by
  show ((d.entries.insert file (.text content)).get? name).getD _ = _
  rw [SortedMap.get?_insert]
  split <;> rfl

theorem entry_store_ne_directory {files : List (String × String)} {d : StateDirectory}
    {name : String} (h : d.entry name ≠ .directory) : (store files d).entry name ≠ .directory := by
  induction files generalizing d with
  | nil => exact h
  | cons f rest ih =>
    rw [entry_store_cons]
    refine ih ?_
    rw [entry_insert]
    split
    · exact fun he => by cases he
    · exact h

theorem Open.store {d : StateDirectory} (h : d.Open) (files : List (String × String)) :
    (d.store files).Open where
  creatable := fun he => by cases he
  places := entry_store_ne_directory h.places
  resources := entry_store_ne_directory h.resources

/-- Behind a first file and the other one the first file is found. -/
theorem entry_store_places (d : StateDirectory) (hub : Hub) :
    (store hub.files d).entry placesFile = .text (PlaceDocument.write hub.placeDocuments) := by
  have hne : ¬ resourcesFile = placesFile := by decide
  unfold Hub.files
  rw [entry_store_cons, entry_store_cons]
  show (present (SortedMap.insert _ _ _)).entry placesFile = _
  rw [entry_insert, if_neg hne, entry_insert, if_pos rfl]

/-- The places are the first file that is written. -/
theorem entry_store_take (d : StateDirectory) (hub : Hub) {n : Nat} (hn : 0 < n) :
    (store (hub.files.take n) d).entry placesFile =
      .text (PlaceDocument.write hub.placeDocuments) := by
  obtain ⟨m, rfl⟩ := Nat.exists_eq_add_of_lt hn
  cases m with
  | zero =>
    show (present (d.entries.insert placesFile _)).entry placesFile = _
    rw [entry_insert, if_pos rfl]
  | succ m =>
    rw [List.take_of_length_le (by simp [Hub.files])]
    exact entry_store_places d hub

theorem writeEach_of_directory {f : String × String} {d : StateDirectory}
    (h : d.entry f.1 = .directory) (rest : List (String × String)) :
    writeEach (f :: rest) d = (false, d) := if_pos h

theorem writeEach_of_free {f : String × String} {d : StateDirectory}
    (h : d.entry f.1 ≠ .directory) (rest : List (String × String)) :
    writeEach (f :: rest) d = writeEach rest (d.store [f]) := if_neg h

/-- The state is written in full, or its places only, or nothing of it. -/
theorem write_files_cases (d : StateDirectory) (hub : Hub) :
    d.write hub.files = (false, d) ∨
      d ≠ .blocked ∧ d.write hub.files = (false, d.store (hub.files.take 1)) ∨
      d.write hub.files = (true, d.store hub.files) := by
  unfold write
  by_cases hblocked : d = .blocked
  · exact Or.inl (if_pos hblocked)
  · rw [if_neg hblocked]
    by_cases hplaces : d.entry placesFile = .directory
    · left
      cases d with
      | blocked => exact absurd rfl hblocked
      | absent => cases hplaces
      | present entries => exact writeEach_of_directory hplaces _
    · right
      unfold Hub.files
      rw [writeEach_of_free (by exact hplaces)]
      by_cases hresources : (d.store [(placesFile, PlaceDocument.write hub.placeDocuments)]).entry
          resourcesFile = .directory
      · exact Or.inl ⟨hblocked, writeEach_of_directory hresources _⟩
      · exact Or.inr (writeEach_of_free hresources _)

/-- The state can be saved in an open directory. -/
theorem Open.write {d : StateDirectory} (h : d.Open) (hub : Hub) :
    d.write hub.files = (true, d.store hub.files) := by
  unfold StateDirectory.write Hub.files
  rw [if_neg h.creatable, writeEach_of_free (by exact h.places),
    writeEach_of_free (entry_store_ne_directory h.resources)]
  rfl

end StateDirectory

namespace Station

variable {s : Station} {d : StateDirectory}

theorem saveIfDirty_open (hs : s.directory = some d) (hd : d.Open) :
    s.saveIfDirty = if s.hub.dirty = true then
      (some true, ⟨{ s.hub with dirty := false }, some (d.store s.hub.files)⟩)
      else (some false, s) := by
  unfold saveIfDirty
  rw [hs]
  dsimp only
  rw [hd.write]

theorem save_open (hs : s.directory = some d) (hd : d.Open) :
    s.save = (some true, ⟨{ s.hub with dirty := false }, some (d.store s.hub.files)⟩) :=
  saveIfDirty_open (s := { s with hub := s.hub.markDirty }) hs hd

/-- A save succeeds and takes the mark away, or only the places of a marked hub are written, or
nothing happens. -/
theorem saveIfDirty_cases (s : Station) :
    (s.saveIfDirty.1 ≠ some true ∧ s.saveIfDirty.2 = s) ∨
      (∃ d, s.directory = some d ∧ d ≠ .blocked ∧ s.hub.dirty = true ∧
        s.saveIfDirty = (none, ⟨s.hub, some (d.store (s.hub.files.take 1))⟩)) ∨
      ∃ d, s.directory = some d ∧ s.saveIfDirty =
        (some true, ⟨{ s.hub with dirty := false }, some (d.store s.hub.files)⟩) := by
  obtain ⟨hub, directory⟩ := s
  cases directory with
  | none => exact Or.inl ⟨by simp [saveIfDirty], rfl⟩
  | some d =>
    cases hdirty : hub.dirty with
    | false =>
      left
      simp [saveIfDirty, hdirty]
    | true =>
      rcases d.write_files_cases hub with hnone | ⟨hfree, hplaces⟩ | hall
      · left
        simp [saveIfDirty, hdirty, hnone]
      · exact Or.inr (Or.inl ⟨d, rfl, hfree, rfl, by simp [saveIfDirty, hdirty, hplaces]⟩)
      · exact Or.inr (Or.inr ⟨d, rfl, by simp [saveIfDirty, hdirty, hall]⟩)

theorem directory_start {settings : HubSettings} {directory : Option StateDirectory}
    (h : Station.start settings directory = .ok s) : s.directory = directory := by
  unfold Station.start at h
  split at h
  · cases h
    rfl
  · split at h
    · cases h
    · cases h
      rfl

/-- An open directory stays open throughout a course. -/
theorem Course.directory {start : Station} {turns : List Turn} (hc : Course start turns s)
    (hstart : start.directory = some d) (hd : d.Open) : ∃ d', s.directory = some d' ∧ d'.Open := by
  induction hc with
  | start => exact ⟨d, hstart, hd⟩
  | step _ hs ih =>
    obtain ⟨d₁, hd₁, hopen⟩ := ih
    cases hs with
    | operate react around now op => exact ⟨d₁, hd₁, hopen⟩
    | save now =>
      rw [save_open hd₁ hopen]
      exact ⟨_, rfl, hopen.store _⟩
    | saveIfDirty now =>
      rw [saveIfDirty_open hd₁ hopen]
      split
      · exact ⟨_, rfl, hopen.store _⟩
      · exact ⟨d₁, hd₁, hopen⟩

end Station

end BoardFarm
