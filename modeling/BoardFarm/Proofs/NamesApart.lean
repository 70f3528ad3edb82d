import BoardFarm.Proofs.PublishedResources

/-!
# Names and aliases

A place may be named by its name or by one of its aliases. Requests see to it that a new name is
no alias and a new alias neither a name nor an alias. The place that a numeric group gets by
default is made without a look at the aliases, so a name may become an alias there, and only
there.

* `Hub.labels`: the names of the places with their aliases.
* `Hub.Relabeling`: what moves do to names and aliases.
* `NamesApart`, `AliasesApart`: no name is an alias, no alias belongs to two places.
* `Station.Itinerary.namesApart_iff`: when they stay apart throughout a course.
* `Station.alias_taken`: an alias that becomes the name of another place.
-/

namespace BoardFarm

/-- The aliases of places by name. -/
abbrev Labels : Type := SortedMap String (SortedSet String)

def NamesApart (labels : Labels) : Prop :=
  ∀ k k' aliases aliases', labels.get? k = some aliases → labels.get? k' = some aliases' →
    aliases'.has k = false

def AliasesApart (labels : Labels) : Prop :=
  ∀ k k' aliases aliases' other, labels.get? k = some aliases → labels.get? k' = some aliases' →
    aliases.has other = true → aliases'.has other = true → k = k'

/-- Nothing in some labels is called by a name. -/
def Labels.lacks (labels : Labels) (name : String) : Prop :=
  ∀ k aliases, labels.get? k = some aliases → aliases.has name = false

/-- A label that is there before a change is there behind it, maybe with fewer aliases. -/
def Labels.within (labels labels' : Labels) : Prop :=
  ∀ k aliases, labels.get? k = some aliases → ∃ aliases', labels'.get? k = some aliases' ∧
    ∀ other, aliases.has other = true → aliases'.has other = true

section Labels

variable {labels labels' : Labels} {name other : String}

theorem NamesApart.within (h : NamesApart labels') (hw : labels.within labels') :
    NamesApart labels := by
  intro k k' aliases aliases' hk hk'
  obtain ⟨_, hold, _⟩ := hw k aliases hk
  obtain ⟨old', hold', hmore⟩ := hw k' aliases' hk'
  have hnot := h k k' _ old' hold hold'
  cases hhas : aliases'.has k with
  | false => rfl
  | true =>
    rw [hmore k hhas] at hnot
    cases hnot

theorem AliasesApart.within (h : AliasesApart labels') (hw : labels.within labels') :
    AliasesApart labels := by
  intro k k' aliases aliases' other hk hk' hhas hhas'
  obtain ⟨old, hold, hmore⟩ := hw k aliases hk
  obtain ⟨old', hold', hmore'⟩ := hw k' aliases' hk'
  exact h k k' old old' other hold hold' (hmore other hhas) (hmore' other hhas')

theorem within_erase (labels : Labels) (name : String) :
    Labels.within (labels.erase name) labels := by
  intro k aliases hk
  exact ⟨aliases, (SortedMap.get?_erase_eq_some_iff.mp hk).2, fun _ h => h⟩

theorem within_remove {aliases : SortedSet String} (hk : labels.get? name = some aliases)
    (other : String) : Labels.within (labels.insert name (aliases.remove other)) labels := by
  intro k aliases' hk'
  rcases SortedMap.get?_insert_eq_some_iff.mp hk' with ⟨rfl, rfl⟩ | ⟨_, hold⟩
  · refine ⟨aliases, hk, ?_⟩
    intro other' hhas
    rw [SortedSet.has_remove, Bool.and_eq_true] at hhas
    exact hhas.2
  · exact ⟨aliases', hold, fun _ h => h⟩

theorem has_empty (other : String) :
    SortedSet.has (SortedMap.empty : SortedSet String) other = false :=
  rfl

/-- A further place has no aliases yet, so only its name can be an alias. -/
theorem namesApart_insert_empty (h : NamesApart labels) (hunused : labels.lacks name) :
    NamesApart (labels.insert name SortedMap.empty) := by
  intro k k' aliases aliases' hk hk'
  rcases SortedMap.get?_insert_eq_some_iff.mp hk' with ⟨_, rfl⟩ | ⟨_, hold'⟩
  · exact has_empty k
  · rcases SortedMap.get?_insert_eq_some_iff.mp hk with ⟨rfl, _⟩ | ⟨_, hold⟩
    · exact hunused k' aliases' hold'
    · exact h k k' aliases aliases' hold hold'

theorem not_namesApart_insert_empty {k : String} {aliases : SortedSet String}
    (hk : labels.get? k = some aliases) (halias : aliases.has name = true)
    (hfresh : labels.get? name = none) :
    ¬ NamesApart (labels.insert name SortedMap.empty) := by
  have hne : name ≠ k := by
    rintro rfl
    rw [hk] at hfresh
    cases hfresh
  have hname : (labels.insert name SortedMap.empty).get? name = some SortedMap.empty := by
    rw [SortedMap.get?_insert, if_pos rfl]
  have hplace : (labels.insert name SortedMap.empty).get? k = some aliases := by
    rw [SortedMap.get?_insert, if_neg hne, hk]
  intro hapart
  have hnot := hapart name k _ aliases hname hplace
  rw [halias] at hnot
  cases hnot

theorem aliasesApart_insert_empty (h : AliasesApart labels) (name : String) :
    AliasesApart (labels.insert name SortedMap.empty) := by
  intro k k' aliases aliases' other hk hk' hhas hhas'
  rcases SortedMap.get?_insert_eq_some_iff.mp hk with ⟨_, rfl⟩ | ⟨_, hold⟩
  · cases (has_empty other).symm.trans hhas
  · rcases SortedMap.get?_insert_eq_some_iff.mp hk' with ⟨_, rfl⟩ | ⟨_, hold'⟩
    · cases (has_empty other).symm.trans hhas'
    · exact h k k' aliases aliases' other hold hold' hhas hhas'

/-- An entry behind a further alias: what it has besides that alias was there before. -/
theorem get?_insert_add {aliases : SortedSet String} (hk : labels.get? name = some aliases)
    {k : String} {aliases' : SortedSet String}
    (hget : (labels.insert name (aliases.add other)).get? k = some aliases') :
    ∃ old, labels.get? k = some old ∧
      ∀ a, aliases'.has a = true → old.has a = true ∨ k = name ∧ a = other := by
  rcases SortedMap.get?_insert_eq_some_iff.mp hget with ⟨rfl, rfl⟩ | ⟨_, hold⟩
  · refine ⟨aliases, hk, ?_⟩
    intro a ha
    rw [SortedSet.has_add, Bool.or_eq_true, decide_eq_true_iff] at ha
    rcases ha with rfl | ha
    · exact Or.inr ⟨rfl, rfl⟩
    · exact Or.inl ha
  · exact ⟨aliases', hold, fun a ha => Or.inl ha⟩

theorem namesApart_insert_add (h : NamesApart labels) {aliases : SortedSet String}
    (hk : labels.get? name = some aliases) (hfresh : labels.get? other = none) :
    NamesApart (labels.insert name (aliases.add other)) := by
  intro k k' first second hfirst hsecond
  obtain ⟨old, hold, _⟩ := get?_insert_add hk hfirst
  obtain ⟨old', hold', hmore⟩ := get?_insert_add hk hsecond
  have hnot := h k k' old old' hold hold'
  cases hhas : second.has k with
  | false => rfl
  | true =>
    rcases hmore k hhas with hhas' | ⟨_, rfl⟩
    · rw [hhas'] at hnot
      cases hnot
    · rw [hfresh] at hold
      cases hold

theorem aliasesApart_insert_add (h : AliasesApart labels) {aliases : SortedSet String}
    (hk : labels.get? name = some aliases) (hunused : labels.lacks other) :
    AliasesApart (labels.insert name (aliases.add other)) := by
  intro k k' first second a hfirst hsecond hhas hhas'
  obtain ⟨old, hold, hmore⟩ := get?_insert_add hk hfirst
  obtain ⟨old', hold', hmore'⟩ := get?_insert_add hk hsecond
  rcases hmore a hhas with hin | ⟨hname, hother⟩
  · rcases hmore' a hhas' with hin' | ⟨_, hother'⟩
    · exact h k k' old old' a hold hold' hin hin'
    · -- the new alias would have been an alias before
      rw [hother', hunused k old hold] at hin
      cases hin
  · rcases hmore' a hhas' with hin' | ⟨hname', _⟩
    · rw [hother, hunused k' old' hold'] at hin'
      cases hin'
    · exact hname.trans hname'.symm

end Labels

namespace Hub

/-- The names of the places with their aliases. -/
def labels (hub : Hub) : Labels := hub.places.mapValues (fun _ p => p.aliases)

/-- Whether a group would get a default place under a name that is an alias. -/
def defaultsAlias (hub : Hub) (group : String) : Bool :=
  isNumeric group && !hub.places.contains group &&
    (ResourceMatch.parse (defaultPattern group) none).isOk && (hub.ownerOfAlias group).isSome

/-- What moves do to names and aliases. -/
inductive Relabeling (o : Occasion) (labels : Labels) : Labels → Prop
  | keep : Relabeling o labels labels
  | add {name : String} (hunused : labels.lacks name) :
      Relabeling o labels (labels.insert name SortedMap.empty)
  | addDefault {link : Nat} {h : Handle} (hop : o.operation = .followUp link)
      (hwork : o.hub.nextWork link = some (.added h))
      (hunused : o.hub.defaultsAlias h.path.group = false → labels.lacks h.path.group) :
      Relabeling o labels (labels.insert h.path.group SortedMap.empty)
  | delete (name : String) : Relabeling o labels (labels.erase name)
  | addAlias {name other : String} {aliases : SortedSet String}
      (hk : labels.get? name = some aliases) (hfresh : labels.get? other = none)
      (hunused : labels.lacks other) :
      Relabeling o labels (labels.insert name (aliases.add other))
  | deleteAlias {name : String} {aliases : SortedSet String}
      (hk : labels.get? name = some aliases) (other : String) :
      Relabeling o labels (labels.insert name (aliases.remove other))

variable {o : Occasion} {hub hub' : Hub}

theorem get?_labels {k : String} {p : Place} (hp : hub.places.get? k = some p) :
    hub.labels.get? k = some p.aliases :=
  SortedMap.get?_mapValues_eq_some_iff.mpr ⟨p, hp, rfl⟩

theorem lacks_of_ownerOfAlias {name : String} (h : hub.ownerOfAlias name = none) :
    hub.labels.lacks name := by
  intro k aliases hk
  obtain ⟨p, hp, rfl⟩ := SortedMap.get?_mapValues_eq_some_iff.mp hk
  have hnot := List.find?_eq_none.mp h p (SortedMap.mem_values_iff.mpr ⟨k, hp⟩)
  simpa using hnot

theorem get?_labels_of_contains {name : String} (h : hub.places.contains name = false) :
    hub.labels.get? name = none := by
  have hnone : hub.places.get? name = none := by
    simpa [SortedMap.contains] using h
  unfold labels
  rw [SortedMap.get?_mapValues, hnone]
  rfl

theorem labels_storePlace (hub : Hub) (p : Place) :
    (hub.storePlace p).labels = hub.labels.insert p.name p.aliases :=
  SortedMap.mapValues_insert hub.places p.name p (fun _ p => p.aliases)

/-- What a pass over the reservations does to places does not concern their aliases. -/
theorem labels_relink (places : SortedMap String Place) (now : Nat)
    (owners : SortedMap String Token) :
    (places.mapValues (fun _ p => relink now owners p)).mapValues (fun _ p => p.aliases) =
      places.mapValues (fun _ p => p.aliases) := by
  have haliases : ∀ p : Place, (relink now owners p).aliases = p.aliases := by
    intro p
    unfold relink
    split <;> rfl
  apply SortedMap.ext_get?
  intro k
  rw [SortedMap.get?_mapValues, SortedMap.get?_mapValues, SortedMap.get?_mapValues,
    Option.map_map]
  simp [Function.comp_def, haliases]

theorem labels_stored (hn : hub.Named) (q : Place) (now : Nat) :
    (((hub.storePlace q).markDirty).schedule now).labels = hub.labels.insert q.name q.aliases := by
  have hw : Writes hub (hub.storePlace q).markDirty := writes_markDirty (.single (.store q))
  rw [← labels_storePlace hub q]
  unfold labels
  rw [places_schedule (hw.named hn), labels_relink]
  rfl

/-- A place that keeps its aliases may be stored. -/
theorem labels_insert_same {k : String} {p : Place} (hp : hub.places.get? k = some p) :
    hub.labels.insert k p.aliases = hub.labels :=
  SortedMap.insert_eq_self (get?_labels hp)

theorem labels_attach (hn : hub.Named) (now : Nat) (name : String) (h : Handle) :
    (hub.attach now name h).labels = hub.labels := by
  unfold Hub.attach
  split
  · rfl
  · rename_i p hp
    rw [labels_storePlace]
    show hub.labels.insert p.name p.aliases = hub.labels
    rw [hn name p hp]
    exact labels_insert_same hp

theorem Change.relabeling {name : String} {p q : Place} (hp : hub.places.get? name = some p)
    (hc : Change o hub name p q) :
    Relabeling o hub.labels (hub.labels.insert name q.aliases) := by
  have hkeep : Relabeling o hub.labels (hub.labels.insert name p.aliases) := by
    rw [labels_insert_same hp]
    exact .keep
  cases hc with
  | edit he =>
    cases he with
    | addAlias other hfresh hunused =>
      exact .addAlias (get?_labels hp) (get?_labels_of_contains hfresh)
        (lacks_of_ownerOfAlias hunused)
    | deleteAlias other => exact .deleteAlias (get?_labels hp) other
    | setComment comment => exact hkeep
    | addPattern hm => exact hkeep
    | deletePattern test => exact hkeep
    | allow user hheld => exact hkeep
  | retag tags _ => exact hkeep
  | acquire _ _ _ _ => exact hkeep
  | release => exact hkeep
  | attach _ _ _ _ => exact hkeep
  | replace _ _ => exact hkeep

theorem Placing.relabeling {places : SortedMap String Place} (h : Placing o hub places) :
    Relabeling o hub.labels (places.mapValues (fun _ p => p.aliases)) := by
  cases h with
  | keep => exact .keep
  | erase name =>
    rw [SortedMap.mapValues_erase]
    exact .delete name
  | add _ hunused =>
    rw [SortedMap.mapValues_insert]
    exact .add (lacks_of_ownerOfAlias hunused)
  | @addDefault link h m hop hwork hplaces hnumeric hfresh hm =>
    rw [SortedMap.mapValues_insert]
    refine .addDefault hop hwork ?_
    intro hnot
    apply lacks_of_ownerOfAlias
    have howner : hub.ownerOfAlias h.path.group = o.hub.ownerOfAlias h.path.group := by
      unfold ownerOfAlias
      rw [hplaces]
    rw [hplaces] at hfresh
    unfold defaultsAlias at hnot
    rw [hnumeric, hfresh, hm] at hnot
    rw [howner]
    simpa [Except.isOk, Except.toBool] using hnot
  | @change name p q hp hc =>
    rw [SortedMap.mapValues_insert]
    show Relabeling o hub.labels (hub.labels.insert name q.aliases)
    exact hc.relabeling hp

/-- Every move relabels places in one of few ways. -/
theorem Move.relabeling (hn : hub.Named) (hm : Move o hub hub') :
    Relabeling o hub.labels hub'.labels := by
  obtain ⟨places, hplacing, hplaces⟩ := hm.placing hn
  have hlabels : hub'.labels = places.mapValues (fun _ p => p.aliases) := by
    unfold labels
    rcases hplaces with he | ⟨owners, he⟩
    · rw [he]
    · rw [he]
      exact labels_relink places o.now owners
  rw [hlabels]
  exact hplacing.relabeling

theorem Relabeling.aliasesApart {labels labels' : Labels} (hr : Relabeling o labels labels')
    (h : AliasesApart labels) : AliasesApart labels' := by
  cases hr with
  | keep => exact h
  | add _ => exact aliasesApart_insert_empty h _
  | addDefault _ _ _ => exact aliasesApart_insert_empty h _
  | delete name => exact h.within (within_erase labels name)
  | addAlias hk _ hunused => exact aliasesApart_insert_add h hk hunused
  | deleteAlias hk other => exact h.within (within_remove hk other)

end Hub

/-- Whether an operation makes a default place under a name that is an alias. -/
def Operation.defaultsAlias (op : Operation) (hub : Hub) : Bool :=
  match op with
  | .followUp link =>
    match hub.nextWork link with
    | some (.added h) => hub.defaultsAlias h.path.group
    | _ => false
  | _ => false

def Turn.defaultsAlias (turn : Turn) (hub : Hub) : Bool :=
  turn.operation.any (fun op => op.defaultsAlias hub)

namespace Hub

variable {o : Occasion} {hub hub' : Hub}

theorem Relabeling.namesApart {labels labels' : Labels} (hr : Relabeling o labels labels')
    (hno : o.operation.defaultsAlias o.hub = false) (h : NamesApart labels) :
    NamesApart labels' := by
  cases hr with
  | keep => exact h
  | add hunused => exact namesApart_insert_empty h hunused
  | addDefault hop hwork hunused =>
    rw [hop] at hno
    unfold Operation.defaultsAlias at hno
    dsimp only at hno
    rw [hwork] at hno
    exact namesApart_insert_empty h (hunused hno)
  | delete name => exact h.within (within_erase labels name)
  | addAlias hk hfresh _ => exact namesApart_insert_add h hk hfresh
  | deleteAlias hk other => exact h.within (within_remove hk other)

theorem Quiet.labels {hub hub' : Hub} (hq : Quiet hub hub') : hub'.labels = hub.labels := by
  unfold Hub.labels
  rw [hq.places]

/-- Names stay apart from aliases along a passage that makes no default place for an alias, and
whenever the outcome of a command becomes known. -/
theorem Passage.namesApart {tells : Bool} {l : List Attempt} (hp : Passage o tells hub l hub')
    (hn : hub.Named) (hno : o.operation.defaultsAlias o.hub = false)
    (h : NamesApart hub.labels) :
    NamesApart hub'.labels ∧ ∀ a ∈ l, NamesApart a.hub.labels := by
  refine Passage.kept (P := fun hub => NamesApart hub.labels) ?_ ?_ hp hn h
  · intro hub hub' hq h
    rw [hq.labels]
    exact h
  · intro hub hub' hn h hm
    exact (hm.relabeling hn).namesApart hno h

theorem labels_addDefaultPlace (hn : hub.Named) {now : Nat} {group : String}
    (h : hub.defaultsAlias group = true) :
    (hub.addDefaultPlace now group).labels = hub.labels.insert group SortedMap.empty := by
  unfold defaultsAlias at h
  simp only [Bool.and_eq_true] at h
  obtain ⟨⟨hnew, hok⟩, _⟩ := h
  unfold addDefaultPlace
  rw [if_pos (by simpa using hnew)]
  split
  · rename_i e he
    rw [he] at hok
    cases hok
  · exact labels_stored hn _ now

end Hub

namespace Run

variable {ω : Type} {react : Surroundings ω} {now : Nat}

theorem named_addDefaultPlace {hub : Hub} (hn : hub.Named) (group : String) :
    (hub.addDefaultPlace now group).Named := by
  unfold Hub.addDefaultPlace
  split
  · split
    · exact hn
    · exact (Hub.writes_schedule (Hub.writes_markDirty (.single (.store _))) now).named hn
  · exact hn

/-- Behind the default place the appearance of a handle relabels nothing. -/
theorem labels_resourceAdded {h : Handle} {r : Run ω} (hn : r.hub.Named) :
    (resourceAdded react now h r).hub.labels =
      (r.hub.addDefaultPlace now h.path.group).labels := by
  have hn₁ : (r.hub.addDefaultPlace now h.path.group).Named :=
    named_addDefaultPlace hn h.path.group
  unfold resourceAdded
  dsimp only
  split
  · rfl
  · rename_i p _
    obtain ⟨⟨l, _, hx⟩, _⟩ := acquireAll_spec react p.name [h]
      (r.modify (fun hub => hub.addDefaultPlace now h.path.group))
    split
    · rename_i hr
      rw [hr] at hx
      exact hx.quiet.labels
    · rename_i r' hr
      rw [hr] at hx
      have hn' : r'.hub.Named := hn₁.of_places hx.quiet.places
      exact (Hub.labels_attach hn' now p.name h).trans hx.quiet.labels

theorem labels_perform_followUp {hub : Hub} {link : Nat} {h : Handle} {around : ω}
    (hn : hub.Named) (hwork : hub.nextWork link = some (.added h))
    (halias : hub.defaultsAlias h.path.group = true) :
    ((start hub around).perform react now (.followUp link)).hub.labels =
      hub.labels.insert h.path.group SortedMap.empty := by
  obtain ⟨⟨id, f⟩, hfirst, rfl⟩ := Option.map_eq_some_iff.mp hwork
  let taken : Hub := { hub with followUps := hub.followUps.eraseP (fun e => e.1 == link) }
  have hnext : nextFollowUp react now link (start hub around) =
      resourceAdded react now h (start taken around) := by
    unfold nextFollowUp
    dsimp only [start]
    rw [hfirst]
    rfl
  have htaken : taken.Named := hn
  have hadded : (taken.addDefaultPlace now h.path.group).labels =
      taken.labels.insert h.path.group SortedMap.empty := Hub.labels_addDefaultPlace htaken halias
  show (nextFollowUp react now link (start hub around)).hub.labels = _
  rw [hnext]
  exact (labels_resourceAdded (r := start taken around) htaken).trans hadded

/-- A default place whose name is an alias is made, and stays. -/
theorem not_namesApart_perform {hub : Hub} {op : Operation} {around : ω} (hn : hub.Named)
    (h : op.defaultsAlias hub = true) :
    ¬ NamesApart ((start hub around).perform react now op).hub.labels := by
  unfold Operation.defaultsAlias at h
  split at h
  · rename_i link
    split at h
    · rename_i handle hwork
      rw [labels_perform_followUp hn hwork h]
      unfold Hub.defaultsAlias at h
      simp only [Bool.and_eq_true, Bool.not_eq_true'] at h
      obtain ⟨p, howner⟩ := Option.isSome_iff_exists.mp h.2
      unfold Hub.ownerOfAlias at howner
      obtain ⟨k, hk⟩ := SortedMap.mem_values_iff.mp (List.mem_of_find?_eq_some howner)
      have halias := List.find?_some (p := fun p : Place => p.aliases.has handle.path.group) howner
      exact not_namesApart_insert_empty (Hub.get?_labels hk) halias
        (Hub.get?_labels_of_contains h.1.1.2)
    · cases h
  · cases h

end Run

namespace Station

variable {settings : HubSettings} {directory : Option StateDirectory} {start s : Station}

theorem Course.aliasesApart (h : Station.start settings directory = .ok start) {turns : List Turn}
    (hc : Course start turns s) (ha : AliasesApart start.hub.labels) :
    AliasesApart s.hub.labels ∧
      ∀ turn ∈ turns, ∀ a ∈ turn.attempts, AliasesApart a.hub.labels := by
  refine hc.kept (P := fun hub => AliasesApart hub.labels) h ha ?_ ?_
  · intro hub hub' hq ha
    rw [hq.labels]
    exact ha
  · intro o hub hub' hn ha hm
    exact (hm.relabeling hn).aliasesApart ha

/-- One turn keeps names and aliases apart just if it makes no default place for an alias. -/
theorem Step.keeps_apart_iff {t : Station} {turn : Turn} (hs : Step s turn t) (hn : s.hub.Named)
    (hf : s.hub.Filed) (h : NamesApart s.hub.labels) :
    (NamesApart t.hub.labels ∧ ∀ a ∈ turn.attempts, NamesApart a.hub.labels) ↔
      turn.defaultsAlias s.hub = false := by
  cases hs with
  | operate react around now op =>
    constructor
    · rintro ⟨ht, _⟩
      cases hop : op.defaultsAlias s.hub with
      | false => exact hop
      | true => exact absurd ht (Run.not_namesApart_perform hn hop)
    · intro hno
      have hp := Run.perform_passes react now op around hn hf.nodup_published
      exact hp.namesApart hn hno h
  | save now =>
    obtain ⟨dirty, hd⟩ := hub_save s
    rw [hd]
    exact ⟨fun _ => rfl, fun _ => ⟨h, fun a ha => by cases ha⟩⟩
  | saveIfDirty now =>
    obtain ⟨dirty, hd⟩ := hub_saveIfDirty s
    rw [hd]
    exact ⟨fun _ => rfl, fun _ => ⟨h, fun a ha => by cases ha⟩⟩

/-! ## Starts -/

/-- A directory of stored places whose names and aliases are apart: none at all, one without stored
places, or one in which a hub has stored its places so that they can be read back. -/
inductive Tidy : Option StateDirectory → Prop
  | none : Tidy none
  | absent {d : StateDirectory} (hd : d.entry placesFile = .absent) : Tidy (some d)
  | stored {d : StateDirectory} {hub : Hub} (hnames : NamesApart hub.labels)
      (haliases : AliasesApart hub.labels)
      (hd : d.entry placesFile = .text (PlaceDocument.write hub.placeDocuments))
      (hread : PlaceDocument.read (PlaceDocument.write hub.placeDocuments) =
        some hub.placeDocuments) : Tidy (some d)

theorem apart_new (settings : HubSettings) :
    NamesApart (Hub.new settings SortedMap.empty).labels ∧
      AliasesApart (Hub.new settings SortedMap.empty).labels := by
  refine ⟨?_, ?_⟩
  · intro k k' aliases aliases' hk
    cases hk
  · intro k k' aliases aliases' other hk
    cases hk

theorem aliases_toPlace {name : String} {d : PlaceDocument} {p : Place}
    (h : d.toPlace name = .ok p) : p.aliases = d.aliases := by
  unfold PlaceDocument.toPlace at h
  split at h
  · cases h
  · cases h
    rfl

theorem start_some_ok {d : StateDirectory} (h : Station.start settings (some d) = .ok start) :
    ∃ places, d.loadPlaces = .ok places ∧ start.hub = Hub.new settings places := by
  unfold Station.start at h
  dsimp only at h
  split at h
  · cases h
  · rename_i places hl
    cases h
    exact ⟨places, hl, rfl⟩

/-- A station that starts with the places that a hub has stored has no other names and aliases than
the hub. -/
theorem within_start {hub : Hub} {d : StateDirectory} {text : String}
    (hd : d.entry placesFile = .text text)
    (hread : PlaceDocument.read text = some hub.placeDocuments)
    (h : Station.start settings (some d) = .ok start) :
    Labels.within start.hub.labels hub.labels := by
  obtain ⟨places, hl, hhub⟩ := start_some_ok h
  have hcheck : hub.placeDocuments.checkValues (fun name document =>
      (document.toPlace name).mapError (StorageError.pattern name)) = .ok places := by
    unfold StateDirectory.loadPlaces at hl
    rw [hd] at hl
    dsimp only at hl
    rw [hread] at hl
    exact hl
  intro k aliases hk
  rw [hhub] at hk
  obtain ⟨p, hp, rfl⟩ := SortedMap.get?_mapValues_eq_some_iff.mp hk
  obtain ⟨document, hdoc, hok⟩ := SortedMap.get?_of_checkValues hcheck hp
  obtain ⟨q, hq, rfl⟩ := SortedMap.get?_mapValues_eq_some_iff.mp hdoc
  refine ⟨q.aliases, Hub.get?_labels hq, ?_⟩
  cases ht : (PlaceDocument.ofPlace q).toPlace k with
  | error e =>
    rw [ht] at hok
    cases hok
  | ok q' =>
    rw [ht] at hok
    cases hok
    rw [aliases_toPlace ht]
    exact fun _ hhas => hhas

theorem Tidy.apart {directory : Option StateDirectory} (ht : Tidy directory)
    (h : Station.start settings directory = .ok start) :
    NamesApart start.hub.labels ∧ AliasesApart start.hub.labels := by
  cases ht with
  | none =>
    cases h
    exact apart_new settings
  | absent hd =>
    obtain ⟨places, hl, hhub⟩ := start_some_ok h
    unfold StateDirectory.loadPlaces at hl
    rw [hd] at hl
    cases hl
    rw [hhub]
    exact apart_new settings
  | stored hnames haliases hd hread =>
    have hw := within_start hd hread h
    exact ⟨hnames.within hw, haliases.within hw⟩

/-! ## Courses -/

theorem Itinerary.stays_namesApart_iff (h : Station.start settings directory = .ok start)
    {l : List (Station × Turn)} (hi : Itinerary start l s) :
    (NamesApart s.hub.labels ∧ ∀ e ∈ l, NamesApart e.1.hub.labels ∧
        ∀ a ∈ e.2.attempts, NamesApart a.hub.labels) ↔
      NamesApart start.hub.labels ∧ ∀ e ∈ l, e.2.defaultsAlias e.1.hub = false := by
  induction hi with
  | start => simp
  | @step l s turn t hi hs ih =>
    obtain ⟨hn, hf⟩ := hi.course.filed h
    constructor
    · rintro ⟨ht, hl⟩
      have hlast := hl (s, turn) (by simp)
      obtain ⟨hstart, hno⟩ := ih.mp ⟨hlast.1, fun e he => hl e (List.mem_append_left _ he)⟩
      refine ⟨hstart, ?_⟩
      intro e he
      rcases List.mem_append.mp he with hold | hnew
      · exact hno e hold
      · rw [List.mem_singleton.mp hnew]
        exact (hs.keeps_apart_iff hn hf hlast.1).mp ⟨ht, hlast.2⟩
    · rintro ⟨hstart, hno⟩
      obtain ⟨hlast, hl⟩ := ih.mpr ⟨hstart, fun e he => hno e (List.mem_append_left _ he)⟩
      obtain ⟨ht, ha⟩ := (hs.keeps_apart_iff hn hf hlast).mpr (hno (s, turn) (by simp))
      refine ⟨ht, ?_⟩
      intro e he
      rcases List.mem_append.mp he with hold | hnew
      · exact hl e hold
      · rw [List.mem_singleton.mp hnew]
        exact ⟨hlast, ha⟩

/-- Behind a tidy start no alias is ever given to two places, and the names of places stay apart
from all aliases, between operations and whenever the outcome of a command becomes known, just if
no turn makes a default place under a name that is an alias. -/
theorem Itinerary.namesApart_iff (ht : Tidy directory)
    (h : Station.start settings directory = .ok start) {l : List (Station × Turn)}
    (hi : Itinerary start l s) :
    (AliasesApart s.hub.labels ∧ ∀ e ∈ l, ∀ a ∈ e.2.attempts, AliasesApart a.hub.labels) ∧
    ((NamesApart s.hub.labels ∧ ∀ e ∈ l, NamesApart e.1.hub.labels ∧
        ∀ a ∈ e.2.attempts, NamesApart a.hub.labels) ↔
      ∀ e ∈ l, e.2.defaultsAlias e.1.hub = false) := by
  obtain ⟨hnames, haliases⟩ := ht.apart h
  obtain ⟨hs, hattempts⟩ := hi.course.aliasesApart h haliases
  refine ⟨⟨hs, fun e he => hattempts e.2 (List.mem_map_of_mem he)⟩, ?_⟩
  rw [hi.stays_namesApart_iff h]
  exact and_iff_right hnames

/-! ## Default places -/

/-- A place gets an alias. Then an exporter publishes a resource in a group with a number, for which
a default place is made. -/
def numberScenes (other : String) : List Scene :=
  [⟨0, .event .exporterOpens, []⟩,
   ⟨0, .event (.exporterSends 0 (.startup "lab" "1")), []⟩,
   ⟨1, .request (Identifier.ofNat .reservation 1) none (.addPlace "board"), []⟩,
   ⟨2, .request (Identifier.ofNat .reservation 2) none (.addAlias "board" other), []⟩,
   ⟨3, .event (.exporterSends 0 (.resource
      ⟨some ("7", "relay"), "PowerPort", SortedMap.empty, "", true⟩)), []⟩,
   ⟨4, .followUp 0, []⟩]

/-- The default place is not called like the alias of the board, so names and aliases stay apart. -/
theorem namesApart_bench :
    (empty.play (numberScenes "bench")).2.hub.labels.get? "7" = some SortedMap.empty ∧
      (empty.play (numberScenes "bench")).2.hub.labels.get? "board" =
        some (SortedSet.ofList ["bench"]) ∧
      AliasesApart (empty.play (numberScenes "bench")).2.hub.labels ∧
      NamesApart (empty.play (numberScenes "bench")).2.hub.labels := by
  have hstart : Station.start ⟨1000, 1000⟩ none = .ok empty := rfl
  have hno : (empty.stages (numberScenes "bench")).all (fun e =>
      !e.2.defaultsAlias e.1.hub) = true := by
    decide +kernel
  obtain ⟨⟨haliases, _⟩, hiff⟩ :=
    Itinerary.namesApart_iff .none hstart (itinerary_stages empty (numberScenes "bench"))
  refine ⟨by decide +kernel, by decide +kernel, haliases, (hiff.mpr ?_).1⟩
  intro e he
  simpa using List.all_eq_true.mp hno e he

/-- A default place takes an alias as its name. -/
theorem alias_taken :
    Course empty (empty.play (numberScenes "7")).1 (empty.play (numberScenes "7")).2 ∧
      NamesApart empty.hub.labels ∧ AliasesApart empty.hub.labels ∧
        ¬ NamesApart (empty.play (numberScenes "7")).2.hub.labels := by
  obtain ⟨hnames, haliases⟩ := apart_new ⟨1000, 1000⟩
  have hplace : (empty.play (numberScenes "7")).2.hub.labels.get? "7" = some SortedMap.empty := by
    decide +kernel
  have hboard : (empty.play (numberScenes "7")).2.hub.labels.get? "board" =
      some (SortedSet.ofList ["7"]) := by decide +kernel
  refine ⟨course_play empty (numberScenes "7"), hnames, haliases, ?_⟩
  intro h
  have hnot := h "7" "board" _ _ hplace hboard
  have hhas : (SortedSet.ofList ["7"]).has "7" = true := by decide +kernel
  rw [hhas] at hnot
  cases hnot

end Station

end BoardFarm
