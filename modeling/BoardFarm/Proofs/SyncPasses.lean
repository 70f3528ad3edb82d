import BoardFarm.Proofs.DriftPlans
import BoardFarm.Proofs.SingleOwner
import BoardFarm.Proofs.Turnover

/-!
# Passes of reconciliation

A pass first commands strays to be released and lost resources to be acquired, and then replaces
orphaned handles. Where each command is confirmed and nothing else happens, the pass makes just
the planned changes: the commanded holders are noted, and places get the published handles.

* `Hub.Obeyed`: every command is confirmed, and nothing else happens.
* `SyncState.Issues.foldl_obeyed`: the commands of a pass.
* `SyncState.foldl_replaceOrphan`: the replacements of a pass.
* `Run.synchronize_parts`: a pass by its parts.
-/

namespace BoardFarm

namespace RetryBudget

variable {b : RetryBudget}

/-- Every key has a retry left, whatever the time. -/
def Spare (b : RetryBudget) : Prop :=
  ∀ key w, b.failures.get? key = some w → w.count ≤ b.maxRetries

theorem Spare.isExhausted (h : b.Spare) (now : Nat) (key : String) :
    b.isExhausted now key = false := by
  unfold RetryBudget.isExhausted
  cases hw : b.failures.get? key with
  | none => rfl
  | some w =>
    have hcount := h key w hw
    simp [Nat.not_lt.mpr hcount]

theorem spare_of_empty (h : b.failures = SortedMap.empty) : b.Spare := by
  intro key w hw
  rw [h] at hw
  cases hw

/-- Without the windows that have passed, only keys are left whose failures count. -/
theorem spare_prune {now : Nat} (h : ∀ key, b.isExhausted now key = false) :
    (b.prune now).Spare := by
  intro key w hw
  have hkept := hw
  unfold prune at hkept
  rw [SortedMap.get?_filter, Option.filter_eq_some_iff] at hkept
  have hfresh := h key
  unfold RetryBudget.isExhausted at hfresh
  rw [hkept.1] at hfresh
  have hnot : ¬ b.maxRetries < w.count := by simpa [hkept.2] using hfresh
  exact Nat.le_of_not_lt hnot

theorem Spare.prune (h : b.Spare) (now : Nat) : (b.prune now).Spare :=
  spare_prune (h.isExhausted now)

theorem Spare.clear (h : b.Spare) (key : String) : (b.clear key).Spare :=
  fun k w hw => h k w (SortedMap.get?_erase_eq_some_iff.mp hw).2

end RetryBudget

namespace Hub

/-! ## Undisturbed commands -/

/-- While the resource of a handle is commanded to have a holder, nothing happens but the answer:
the published resources, the flags, and what is known of the other holders stay the same. -/
structure Undisturbed (x : Handle) (place : Option String) (hub hub' : Hub) : Prop where
  published : hub'.published = hub.published
  flags : ∀ y, hub'.isOrphaned y = hub.isOrphaned y
  holders : ∀ y, hub'.holder y = hub.holder y ∨ y.serial = x.serial ∧ hub'.holder y = place

/-- Every command that has been tried from here on is confirmed, and nothing else happens. -/
def Obeyed (hub : Hub) : List Attempt → Prop
  | [] => True
  | a :: rest => a.outcome = .done ∧ Undisturbed a.handle a.place hub a.hub ∧
      Obeyed (a.settled false) rest

variable {hub hub' : Hub}

theorem Obeyed.of_same {l : List Attempt} (h : Obeyed hub l)
    (hpublished : hub'.published = hub.published) (hrecords : hub'.records = hub.records) :
    Obeyed hub' l := by
  cases l with
  | nil => trivial
  | cons a rest =>
    obtain ⟨hdone, hu, hrest⟩ := h
    refine ⟨hdone, ⟨hu.published.trans hpublished.symm, ?_, ?_⟩, hrest⟩
    · intro y
      rw [hu.flags, isOrphaned_of_records hrecords]
    · intro y
      have hholder : hub'.holder y = hub.holder y := by
        unfold holder record
        rw [hrecords]
      rw [hholder]
      exact hu.holders y

/-- The exporter reports the new holder before it answers. -/
theorem undisturbed_of_reported {x : Handle} {place : Option String}
    (hpublished : hub'.published = hub.published)
    (hrecords : hub'.records =
      (hub.modifyRecord x (fun r => { r with acquired := place })).records) :
    Undisturbed x place hub hub' := by
  refine ⟨hpublished, ?_, ?_⟩
  · intro y
    have hkeeps : ∀ r : ResourceRecord, { r with acquired := place }.orphaned = r.orphaned :=
      fun _ => rfl
    rw [isOrphaned_of_records hrecords, isOrphaned_modifyRecord hkeeps]
  · intro y
    have hholder : hub'.holder y =
        ((hub.records.modify x.serial (fun r => { r with acquired := place })).get?
          y.serial |>.getD noRecord).acquired := by
      unfold holder record
      rw [hrecords]
      rfl
    rw [hholder, SortedMap.get?_modify]
    split
    · rename_i he
      cases hr : hub.records.get? y.serial with
      | none =>
        left
        unfold holder record
        rw [hr]
        rfl
      | some r => exact Or.inr ⟨he.symm, rfl⟩
    · exact Or.inl rfl

/-- What has been commanded, and nothing else. -/
structure Commanded (cmds : List (ResourcePath × Option String)) (hub hub' : Hub) : Prop where
  places : hub'.places = hub.places
  published : hub'.published = hub.published
  flags : ∀ y, hub'.isOrphaned y = hub.isOrphaned y
  commanded : ∀ x ∈ hub.published, ∀ place, (x.path, place) ∈ cmds → hub'.holder x = place
  others : ∀ x ∈ hub.published, x.path ∉ cmds.map Prod.fst → hub'.holder x = hub.holder x

theorem Commanded.refl (hub : Hub) : Commanded [] hub hub :=
  ⟨rfl, rfl, fun _ => rfl, fun _ _ _ h => absurd h List.not_mem_nil, fun _ _ _ => rfl⟩

theorem Commanded.cons {cmds : List (ResourcePath × Option String)} {hub₁ : Hub}
    {path : ResourcePath} {place : Option String} (h : Commanded [(path, place)] hub hub₁)
    (h' : Commanded cmds hub₁ hub') (hnew : path ∉ cmds.map Prod.fst) :
    Commanded ((path, place) :: cmds) hub hub' := by
  refine ⟨h'.places.trans h.places, h'.published.trans h.published,
    fun y => (h'.flags y).trans (h.flags y), ?_, ?_⟩
  · intro x hx place' hmem
    have hx₁ : x ∈ hub₁.published := by rw [h.published]; exact hx
    rcases List.mem_cons.mp hmem with he | hrest
    · obtain ⟨hpath, rfl⟩ := Prod.mk.inj he
      rw [h'.others x hx₁ (hpath ▸ hnew)]
      exact h.commanded x hx place' (List.mem_singleton.mpr he)
    · exact h'.commanded x hx₁ place' hrest
  · intro x hx hnot
    rw [List.map_cons, List.mem_cons, not_or] at hnot
    have hx₁ : x ∈ hub₁.published := by rw [h.published]; exact hx
    rw [h'.others x hx₁ hnot.2]
    exact h.others x hx (by simpa using hnot.1)

theorem Commanded.append {cmds cmds' : List (ResourcePath × Option String)} {hub₁ : Hub}
    (h : Commanded cmds hub hub₁) (h' : Commanded cmds' hub₁ hub')
    (hapart : ∀ path ∈ cmds.map Prod.fst, path ∉ cmds'.map Prod.fst) :
    Commanded (cmds ++ cmds') hub hub' := by
  refine ⟨h'.places.trans h.places, h'.published.trans h.published,
    fun y => (h'.flags y).trans (h.flags y), ?_, ?_⟩
  · intro x hx place hmem
    have hx₁ : x ∈ hub₁.published := by rw [h.published]; exact hx
    rcases List.mem_append.mp hmem with hfirst | hlater
    · rw [h'.others x hx₁ (hapart _ (List.mem_map_of_mem (f := Prod.fst) hfirst))]
      exact h.commanded x hx place hfirst
    · exact h'.commanded x hx₁ place hlater
  · intro x hx hnot
    rw [List.map_append, List.mem_append, not_or] at hnot
    have hx₁ : x ∈ hub₁.published := by rw [h.published]; exact hx
    rw [h'.others x hx₁ hnot.2]
    exact h.others x hx hnot.1

/-- A confirmed holder is noted in the record of the handle. -/
theorem holder_confirm (hf : hub.Filed) {x : Handle} (hx : x ∈ hub.published)
    (place : Option String) (y : Handle) :
    (hub.modifyRecord x (fun r => { r with acquired := place })).holder y =
      if x.serial = y.serial then place else hub.holder y := by
  obtain ⟨r, hr⟩ := Option.isSome_iff_exists.mp ((hf.records x.serial).mpr (hf.serials hx))
  unfold holder record modifyRecord
  dsimp only
  rw [SortedMap.get?_modify]
  split
  · rename_i he
    rw [← he, hr]
    rfl
  · rfl

/-- An undisturbed command that is confirmed. -/
theorem commanded_settled {a : Attempt} (hf : hub.Filed) (hx : a.handle ∈ hub.published)
    (hexchange : Exchange false hub [] a.hub) (hdone : a.outcome = .done)
    (hu : Undisturbed a.handle a.place hub a.hub) :
    Commanded [(a.handle.path, a.place)] hub (a.settled false) := by
  have hsettled : a.settled false =
      a.hub.modifyRecord a.handle (fun r => { r with acquired := a.place }) := by
    unfold Attempt.settled
    rw [hdone]
  have hx' : a.handle ∈ a.hub.published := by rw [hu.published]; exact hx
  have hholder := holder_confirm (hexchange.filed hf) hx' a.place
  rw [hsettled]
  refine ⟨hexchange.quiet.places, hu.published, ?_, ?_, ?_⟩
  · intro y
    have hkeeps : ∀ r : ResourceRecord, { r with acquired := a.place }.orphaned = r.orphaned :=
      fun _ => rfl
    exact (isOrphaned_modifyRecord hkeeps y).trans (hu.flags y)
  · intro x hx₁ place hmem
    obtain ⟨hpath, rfl⟩ := Prod.mk.inj (List.mem_singleton.mp hmem)
    have he : x = a.handle :=
      List.inj_on_of_nodup_map hf.nodup_published hx₁ hx hpath
    rw [hholder, he, if_pos rfl]
  · intro x hx₁ hnot
    have hne : a.handle.serial ≠ x.serial := by
      intro he
      rw [hf.distinct hx hx₁ he] at hnot
      simp at hnot
    rw [hholder, if_neg hne]
    rcases hu.holders x with hsame | ⟨hserial, _⟩
    · exact hsame
    · exact absurd hserial.symm hne

end Hub

namespace SyncState

variable {ω α : Type} {react : Surroundings ω} {published : SortedMap ResourcePath Handle}

/-! ## Commands -/

/-- A step of a pass that commands the resource of a path to have a holder. -/
structure Issues (react : Surroundings ω) (published : SortedMap ResourcePath Handle)
    (f : SyncState ω → α → SyncState ω) (path : α → ResourcePath) (place : α → Option String) :
    Prop where
  run : ∀ s e, (f s e).run = (s.command react published (path e) (place e)).2.run
  clock : ∀ s e, (f s e).clock = (s.command react published (path e) (place e)).2.clock
  unresolved : ∀ s e, (s.command react published (path e) (place e)).1 = some .done →
    (f s e).unresolved = (s.command react published (path e) (place e)).2.unresolved

theorem issues_releaseStray : Issues react published
    (fun s path => s.releaseStray react published path) (fun path => path) (fun _ => none) := by
  constructor
  · intro s path
    unfold releaseStray
    split <;> rename_i he <;> simp [he, countFailure]
  · intro s path
    unfold releaseStray
    split <;> rename_i he <;> simp [he, countFailure]
  · intro s path hdone
    unfold releaseStray
    split <;> rename_i he <;> simp_all

theorem issues_acquireLost : Issues react published
    (fun s e => s.acquireLost react published e) Prod.fst (fun e => some e.2) := by
  constructor
  · intro s e
    unfold acquireLost
    split <;> rename_i he <;> simp [he, countFailure]
  · intro s e
    unfold acquireLost
    split <;> rename_i he <;> simp [he, countFailure]
  · intro s e hdone
    unfold acquireLost
    split <;> rename_i he <;> simp_all

/-- A resource without a retry left is only looked at. -/
theorem command_skipped (react : Surroundings ω) (s : SyncState ω) {path : ResourcePath}
    (place : Option String) {x : Handle} (hx : published.get? path = some x)
    (hspent : s.run.hub.retries.isExhausted s.clock.next.now path.text = true) :
    (s.command react published path place).2.run = s.run ∧
      (s.command react published path place).2.clock = s.clock.next := by
  unfold command
  rw [hx]
  simp [hspent]

/-- A resource with a retry left is commanded once. -/
theorem command_spec (react : Surroundings ω) (s : SyncState ω) {path : ResourcePath}
    (place : Option String) {x : Handle} (hx : published.get? path = some x)
    (hleft : s.run.hub.retries.isExhausted s.clock.next.now path.text = false) :
    ∃ a : Attempt, a.handle = x ∧ a.place = place ∧ Hub.Exchange false s.run.hub [] a.hub ∧
      (s.command react published path place).1 = some a.outcome ∧
      (s.command react published path place).2.run.attempts = s.run.attempts ++ [a] ∧
      (s.command react published path place).2.unresolved = s.unresolved ∧
      (s.command react published path place).2.clock = s.clock.next.next ∧
      (s.command react published path place).2.run.hub =
        (a.settled false).noteOutcome s.clock.next.next.now path a.outcome := by
  obtain ⟨a, hhandle, hplace, houtcome, hexchange, hattempts, hhub⟩ :=
    Run.command_spec react false s.run x place
  refine ⟨a, hhandle, hplace, hexchange, ?_⟩
  have hcommand : s.command react published path place =
      (some (s.run.command react x place).1,
        { s with
          run := (s.run.command react x place).2.modify (fun hub =>
            hub.noteOutcome s.clock.next.next.now path (s.run.command react x place).1)
          clock := s.clock.next.next }) := by
    unfold command
    rw [hx]
    simp only [hleft]
    rfl
  rw [hcommand, houtcome]
  refine ⟨rfl, hattempts, rfl, rfl, ?_⟩
  show ((s.run.command react x place).2.hub).noteOutcome _ path _ = _
  rw [hhub]

theorem Issues.extends {f : SyncState ω → α → SyncState ω} {path : α → ResourcePath}
    {place : α → Option String} (hf : Issues react published f path place) (l : List α)
    (s : SyncState ω) : ∃ tail, (l.foldl f s).run.attempts = s.run.attempts ++ tail := by
  induction l generalizing s with
  | nil => exact ⟨[], by simp⟩
  | cons e rest ih =>
    obtain ⟨tail, htail⟩ := ih (f s e)
    obtain ⟨l, hl, _⟩ := Run.syncCommand_passes (o := ⟨0, .synchronize [], s.run.hub⟩) rfl react
      published s (path e) (place e)
    refine ⟨l ++ tail, ?_⟩
    rw [List.foldl_cons, htail, hf.run, hl, List.append_assoc]

/-- The commands of a pass, where each is confirmed and nothing else happens. -/
theorem Issues.foldl_obeyed {f : SyncState ω → α → SyncState ω} {path : α → ResourcePath}
    {place : α → Option String} (hf : Issues react published f path place) {l : List α}
    {s : SyncState ω} (hfiled : s.run.hub.Filed) (hspare : s.run.hub.retries.Spare)
    (hlisted : ∀ e ∈ l, ∃ x ∈ s.run.hub.published, x.path = path e ∧
      published.get? (path e) = some x)
    (hnodup : (l.map path).Nodup) {tail rest : List Attempt}
    (hattempts : (l.foldl f s).run.attempts = s.run.attempts ++ tail)
    (hobeyed : s.run.hub.Obeyed (tail ++ rest)) :
    (l.foldl f s).run.hub.Obeyed rest ∧ (l.foldl f s).run.hub.Filed ∧
      (l.foldl f s).run.hub.retries.Spare ∧ (l.foldl f s).unresolved = s.unresolved ∧
      Hub.Commanded (l.map (fun e => (path e, place e))) s.run.hub (l.foldl f s).run.hub := by
  induction l generalizing s tail with
  | nil =>
    have hnil : tail = [] := by simpa using hattempts
    subst hnil
    exact ⟨hobeyed, hfiled, hspare, rfl, .refl _⟩
  | cons e l ih =>
    obtain ⟨x, hx, hpath, hget⟩ := hlisted e (List.mem_cons_self ..)
    obtain ⟨a, rfl, hplace, hexchange, hanswer, hnoted, hunresolved, _, hhub⟩ :=
      command_spec react s (place e) hget (hspare.isExhausted _ _)
    obtain ⟨tail', htail'⟩ := hf.extends l (f s e)
    rw [List.foldl_cons] at hattempts
    rw [htail', hf.run, hnoted, List.append_assoc] at hattempts
    have htail : [a] ++ tail' = tail := List.append_cancel_left hattempts
    subst htail
    obtain ⟨hdone, hu, hrest⟩ := hobeyed
    have hsettled := Hub.commanded_settled hfiled hx hexchange hdone hu
    -- the note of the outcome concerns the retries only
    have hnote : (f s e).run.hub =
        { a.settled false with retries := (a.settled false).retries.clear (path e).text } := by
      rw [hf.run, hhub, hdone]
      rfl
    have hretries : (a.settled false).retries = s.run.hub.retries :=
      (Hub.quiet_settled false a).retries.trans hexchange.quiet.retries
    have hstep : Hub.Commanded [(path e, place e)] s.run.hub (f s e).run.hub := by
      rw [hnote, ← hpath, ← hplace]
      exact ⟨hsettled.places, hsettled.published, hsettled.flags, hsettled.commanded,
        hsettled.others⟩
    rw [List.map_cons, List.nodup_cons] at hnodup
    have hfiled' : (f s e).run.hub.Filed := by
      rw [hnote]
      exact (hexchange.filed hfiled).settled.shrink (.of_eq rfl rfl)
    have hspare' : (f s e).run.hub.retries.Spare := by
      rw [hnote]
      show ((a.settled false).retries.clear _).Spare
      rw [hretries]
      exact hspare.clear _
    have hlisted' : ∀ e' ∈ l, ∃ y ∈ (f s e).run.hub.published, y.path = path e' ∧
        published.get? (path e') = some y := by
      intro e' he'
      rw [hstep.published]
      exact hlisted e' (List.mem_cons_of_mem _ he')
    have hobeyed' : (f s e).run.hub.Obeyed (tail' ++ rest) := by
      rw [hnote]
      exact Hub.Obeyed.of_same hrest rfl rfl
    obtain ⟨hr, hfl, hsp, hun, hcmd⟩ := ih hfiled' hspare' hlisted' hnodup.2 htail' hobeyed'
    refine ⟨hr, hfl, hsp, ?_, ?_⟩
    · rw [List.foldl_cons, hun, hf.unresolved s e (by rw [hanswer, hdone]), hunresolved]
    · rw [List.foldl_cons, List.map_cons]
      refine hstep.cons hcmd ?_
      rw [List.map_map]
      exact hnodup.1

/-- Each command that a pass tries is one of its entries. -/
theorem Issues.mem_tried {f : SyncState ω → α → SyncState ω} {path : α → ResourcePath}
    {place : α → Option String} (hf : Issues react published f path place) {l : List α}
    {s : SyncState ω} {a : Attempt} (ha : a ∈ (l.foldl f s).run.attempts) :
    a ∈ s.run.attempts ∨
      ∃ e ∈ l, published.get? (path e) = some a.handle ∧ a.place = place e := by
  induction l generalizing s with
  | nil => exact Or.inl ha
  | cons e l ih =>
    rw [List.foldl_cons] at ha
    rcases ih ha with hstep | ⟨e', he', hget, hplace⟩
    · rw [hf.run] at hstep
      cases hx : published.get? (path e) with
      | none =>
        have hskip : s.command react published (path e) (place e) = (none, s) := by
          unfold command
          rw [hx]
        rw [hskip] at hstep
        exact Or.inl hstep
      | some x =>
        cases hleft : s.run.hub.retries.isExhausted s.clock.next.now (path e).text with
        | true =>
          rw [(command_skipped react s (place e) hx hleft).1] at hstep
          exact Or.inl hstep
        | false =>
          obtain ⟨a', rfl, hplace, _, _, hnoted, _⟩ :=
            command_spec react s (place e) hx hleft
          rw [hnoted] at hstep
          rcases List.mem_append.mp hstep with hold | hnew
          · exact Or.inl hold
          · rw [List.mem_singleton.mp hnew]
            exact Or.inr ⟨e, List.mem_cons_self .., hx, hplace⟩
    · exact Or.inr ⟨e', List.mem_cons_of_mem _ he', hget, hplace⟩

/-! ## Replacements -/

variable {now : Nat}

/-- A place behind the replacements of a pass holds the same paths. A handle that it holds is the
published one, or has been held before and was not to be replaced. -/
structure Renews (published : SortedMap ResourcePath Handle) (l : List (ResourcePath × String))
    (name : String) (p p' : Place) : Prop where
  acquired : p'.acquired = p.acquired
  paths : p'.held.map Handle.path = p.held.map Handle.path
  held : ∀ y ∈ p'.held, published.get? y.path = some y ∨ y ∈ p.held ∧ (y.path, name) ∉ l

/-- Replacements, and nothing else. -/
structure Renewed (published : SortedMap ResourcePath Handle) (l : List (ResourcePath × String))
    (hub hub' : Hub) : Prop where
  links : hub'.links = hub.links
  records : hub'.records = hub.records
  retries : hub'.retries = hub.retries
  named : hub'.Named
  kept : ∀ {k : String} {p : Place}, hub.places.get? k = some p →
    ∃ p', hub'.places.get? k = some p' ∧ Renews published l k p p'
  old : ∀ {k : String} {p' : Place}, hub'.places.get? k = some p' →
    ∃ p, hub.places.get? k = some p ∧ Renews published l k p p'

theorem Renews.trans {l : List (ResourcePath × String)} {e : ResourcePath × String}
    {name : String} {p p₁ p' : Place} (h : Renews published [e] name p p₁)
    (h' : Renews published l name p₁ p') : Renews published (e :: l) name p p' := by
  refine ⟨h'.acquired.trans h.acquired, h'.paths.trans h.paths, ?_⟩
  intro y hy
  rcases h'.held y hy with hfresh | ⟨hy₁, hnot⟩
  · exact Or.inl hfresh
  · rcases h.held y hy₁ with hfresh | ⟨hold, hne⟩
    · exact Or.inl hfresh
    · refine Or.inr ⟨hold, ?_⟩
      rw [List.mem_cons, not_or]
      exact ⟨fun he => hne (List.mem_singleton.mpr he), hnot⟩

theorem Renewed.trans {l : List (ResourcePath × String)} {e : ResourcePath × String}
    {hub hub₁ hub' : Hub} (h : Renewed published [e] hub hub₁)
    (h' : Renewed published l hub₁ hub') : Renewed published (e :: l) hub hub' := by
  refine ⟨h'.links.trans h.links, h'.records.trans h.records, h'.retries.trans h.retries, h'.named,
    ?_, ?_⟩
  · intro k p hp
    obtain ⟨p₁, hp₁, hr₁⟩ := h.kept hp
    obtain ⟨p', hp', hr'⟩ := h'.kept hp₁
    exact ⟨p', hp', hr₁.trans hr'⟩
  · intro k p' hp'
    obtain ⟨p₁, hp₁, hr'⟩ := h'.old hp'
    obtain ⟨p, hp, hr₁⟩ := h.old hp₁
    exact ⟨p, hp, hr₁.trans hr'⟩

/-- What a pass leaves alone. -/
theorem renewed_same {hub : Hub} (hn : hub.Named) {l : List (ResourcePath × String)}
    (h : ∀ k p, hub.places.get? k = some p → ∀ y ∈ p.held,
      published.get? y.path = some y ∨ (y.path, k) ∉ l) : Renewed published l hub hub := by
  have hsame : ∀ {k : String} {p : Place}, hub.places.get? k = some p →
      Renews published l k p p := by
    intro k p hp
    refine ⟨rfl, rfl, fun y hy => ?_⟩
    exact (h k p hp y hy).imp id (fun hnot => ⟨hy, hnot⟩)
  exact ⟨rfl, rfl, rfl, hn, fun hp => ⟨_, hp, hsame hp⟩, fun hp => ⟨_, hp, hsame hp⟩⟩

theorem mem_replaceHandle_of_nodup {x y : Handle} {l : List Handle}
    (hl : (l.map Handle.path).Nodup) (hy : y ∈ Hub.replaceHandle x l) :
    y = x ∨ y ∈ l ∧ y.path ≠ x.path := by
  induction l with
  | nil => cases hy
  | cons old rest ih =>
    rw [List.map_cons, List.nodup_cons] at hl
    unfold Hub.replaceHandle at hy
    split at hy
    · rename_i he
      rcases List.mem_cons.mp hy with rfl | hrest
      · exact Or.inl rfl
      · refine Or.inr ⟨List.mem_cons_of_mem _ hrest, ?_⟩
        intro hpath
        exact hl.1 (he ▸ hpath ▸ List.mem_map_of_mem hrest)
    · rename_i hne
      rcases List.mem_cons.mp hy with rfl | hrest
      · exact Or.inr ⟨List.mem_cons_self .., hne⟩
      · exact (ih hl.2 hrest).imp id (fun h => ⟨List.mem_cons_of_mem _ h.1, h.2⟩)

theorem renewed_replaceHeld {hub hub' : Hub} (hn : hub.Named)
    (honce : ∀ k p, hub.places.get? k = some p → (p.held.map Handle.path).Nodup) {name : String}
    {x : Handle} (hx : published.get? x.path = some x)
    (hr : hub.replaceHeld now name x = some hub') :
    Renewed published [(x.path, name)] hub hub' := by
  obtain ⟨p, old, hp, _, rfl⟩ := Hub.replaceHeld_eq_some hr
  have hname := hn name p hp
  have hw : Hub.Write hub
      (hub.storePlace ({ p with held := Hub.replaceHandle x p.held }.touch now)) := .store _
  have hget : ∀ k, (hub.storePlace
      ({ p with held := Hub.replaceHandle x p.held }.touch now)).places.get? k =
        if name = k then some ({ p with held := Hub.replaceHandle x p.held }.touch now)
        else hub.places.get? k := by
    intro k
    rw [← hname]
    exact SortedMap.get?_insert ..
  have hrenews : Renews published [(x.path, name)] name p
      ({ p with held := Hub.replaceHandle x p.held }.touch now) := by
    refine ⟨rfl, Hub.map_replaceHandle x p.held, ?_⟩
    intro y hy
    rcases mem_replaceHandle_of_nodup (honce name p hp) hy with rfl | ⟨hold, hne⟩
    · exact Or.inl hx
    · refine Or.inr ⟨hold, fun hmem => hne ?_⟩
      exact (Prod.mk.inj (List.mem_singleton.mp hmem)).1
  have hother : ∀ {k : String} {q : Place}, name ≠ k → Renews published [(x.path, name)] k q q := by
    intro k q hne
    refine ⟨rfl, rfl, fun y hy => Or.inr ⟨hy, fun hmem => hne ?_⟩⟩
    exact (Prod.mk.inj (List.mem_singleton.mp hmem)).2.symm
  refine ⟨rfl, rfl, rfl, hw.named hn, ?_, ?_⟩
  · intro k q hq
    rw [hget]
    split
    · rename_i hk
      subst hk
      rw [hp] at hq
      cases hq
      exact ⟨_, rfl, hrenews⟩
    · rename_i hne
      exact ⟨q, hq, hother hne⟩
  · intro k q hq
    rw [hget] at hq
    split at hq
    · rename_i hk
      subst hk
      cases hq
      exact ⟨p, hp, hrenews⟩
    · rename_i hne
      exact ⟨q, hq, hother hne⟩

/-- Nothing is replaced where the place holds no handle of the path, or the published one. -/
theorem renewed_of_replaceHeld_none {hub : Hub} (hn : hub.Named)
    (honce : ∀ k p, hub.places.get? k = some p → (p.held.map Handle.path).Nodup) {name : String}
    {x : Handle} (hx : published.get? x.path = some x)
    (hr : hub.replaceHeld now name x = none) : Renewed published [(x.path, name)] hub hub := by
  refine renewed_same hn ?_
  intro k p hp y hy
  by_cases he : (y.path, k) = (x.path, name)
  · obtain ⟨hpath, rfl⟩ := Prod.mk.inj he
    left
    unfold Hub.replaceHeld at hr
    rw [hp] at hr
    dsimp only at hr
    split at hr
    · rename_i hnone
      have hno := List.find?_eq_none.mp hnone y hy
      simp [hpath] at hno
    · rename_i old hold
      split at hr
      · rename_i hserial
        have holdpath : old.path = x.path := by simpa using List.find?_some hold
        have hyold : y = old := List.inj_on_of_nodup_map (honce k p hp) hy
          (List.mem_of_find?_eq_some hold) (hpath.trans holdpath.symm)
        have hxy : y = x := by
          rw [hyold]
          cases old
          cases x
          simp_all
        rw [hxy]
        exact hx
      · cases hr
  · exact Or.inr (fun hmem => he (List.mem_singleton.mp hmem))

theorem attempts_foldl_replaceOrphan (now : Nat) (published : SortedMap ResourcePath Handle)
    (l : List (ResourcePath × String)) (s : SyncState ω) :
    (l.foldl (fun s e => s.replaceOrphan published now e) s).run.attempts = s.run.attempts := by
  refine List.foldlRecOn _ _ (motive := fun s' : SyncState ω =>
    s'.run.attempts = s.run.attempts) rfl ?_
  intro s' hs' e _
  rw [← hs']
  unfold replaceOrphan
  split
  · rfl
  · split
    · rfl
    · split <;> rfl

theorem replaceOrphan_of_none {now : Nat} {published : SortedMap ResourcePath Handle}
    {s : SyncState ω} {path : ResourcePath} {name : String} {x : Handle}
    (hresolved : s.unresolved = []) (hx : published.get? path = some x)
    (hr : s.run.hub.replaceHeld now name x = none) :
    s.replaceOrphan published now (path, name) = s := by
  unfold replaceOrphan
  rw [hresolved, hx]
  simp [hr]

theorem replaceOrphan_of_some {now : Nat} {published : SortedMap ResourcePath Handle}
    {s : SyncState ω} {path : ResourcePath} {name : String} {x : Handle} {hub' : Hub}
    (hresolved : s.unresolved = []) (hx : published.get? path = some x)
    (hr : s.run.hub.replaceHeld now name x = some hub') :
    s.replaceOrphan published now (path, name) = { s with
      run := { s.run with hub := hub' }
      report := { s.report with replaced := s.report.replaced + 1 } } := by
  unfold replaceOrphan
  rw [hresolved, hx]
  simp [hr]

/-- The replacements of a pass, where no path is left unresolved. -/
theorem foldl_replaceOrphan (now : Nat) {l : List (ResourcePath × String)} {s : SyncState ω}
    (hn : s.run.hub.Named)
    (honce : ∀ k p, s.run.hub.places.get? k = some p → (p.held.map Handle.path).Nodup)
    (hlisted : ∀ e ∈ l, ∃ x, published.get? e.1 = some x ∧ x.path = e.1)
    (hresolved : s.unresolved = []) :
    Renewed published l s.run.hub
      (l.foldl (fun s e => s.replaceOrphan published now e) s).run.hub := by
  induction l generalizing s with
  | nil => exact renewed_same hn (fun _ _ _ _ _ => Or.inr List.not_mem_nil)
  | cons e l ih =>
    obtain ⟨path, name⟩ := e
    obtain ⟨x, hx, rfl⟩ := hlisted _ (List.mem_cons_self ..)
    dsimp only at hx
    obtain ⟨hresolved', hrenewed⟩ :
        (s.replaceOrphan published now (x.path, name)).unresolved = [] ∧
          Renewed published [(x.path, name)] s.run.hub
            (s.replaceOrphan published now (x.path, name)).run.hub := by
      cases hr : s.run.hub.replaceHeld now name x with
      | none =>
        rw [replaceOrphan_of_none hresolved hx hr]
        exact ⟨hresolved, renewed_of_replaceHeld_none hn honce hx hr⟩
      | some hub' =>
        rw [replaceOrphan_of_some hresolved hx hr]
        exact ⟨hresolved, renewed_replaceHeld hn honce hx hr⟩
    have honce' : ∀ k p, (s.replaceOrphan published now (x.path, name)).run.hub.places.get? k =
        some p → (p.held.map Handle.path).Nodup := by
      intro k p hp
      obtain ⟨p₀, hp₀, hrenews⟩ := hrenewed.old hp
      rw [hrenews.paths]
      exact honce k p₀ hp₀
    have hrest := ih hrenewed.named honce' (fun e he => hlisted e (List.mem_cons_of_mem _ he))
      hresolved'
    exact hrenewed.trans hrest

end SyncState

/-- A pass by its parts. It prunes the budget, commands the strays and then the lost resources, and
replaces handles without another command. -/
theorem Run.synchronize_parts {ω : Type} (react : Surroundings ω) (around : ω) (c : Clock)
    (hub : Hub) : ∃ s₀ s₁ s₂ s₃ : SyncState ω,
      s₀.run.hub = { hub with retries := hub.retries.prune c.now } ∧ s₀.run.attempts = [] ∧
      s₀.clock = c ∧
      hub.driftPlan.release.foldl
        (fun s path => s.releaseStray react hub.publishedMap path) s₀ = s₁ ∧
      hub.driftPlan.acquire.foldl (fun s e => s.acquireLost react hub.publishedMap e)
        { s₁ with unresolved := [] } = s₂ ∧
      hub.driftPlan.replace.foldl
        (fun s e => s.replaceOrphan hub.publishedMap c.last e) s₂ = s₃ ∧
      ((start hub around).synchronize react c).2 = s₃.run ∧
      s₃.run.attempts = s₂.run.attempts := by
  refine ⟨⟨(start hub around).modify (fun hub => { hub with retries := hub.retries.prune c.now }),
    c, { SyncReport.nothing with conflicts := hub.driftPlan.conflicts.length }, []⟩, _, _, _,
    rfl, rfl, rfl, rfl, rfl, rfl, rfl, ?_⟩
  exact SyncState.attempts_foldl_replaceOrphan c.last hub.publishedMap _ _

end BoardFarm
