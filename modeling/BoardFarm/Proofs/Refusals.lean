import BoardFarm.Proofs.Quiet

/-!
# Refused requests

A request that fails leaves no trace of its own: places, reservations, retries and the mark of a
change stay as they are, and nobody is told anything about places. Only an acquisition sends
commands before it fails. While it waits for their answers, exporters and clients go on, so what
happens in these pauses is told apart from what the request does.

* `recorded`: surroundings that keep a record of the pauses of a run.
* `Hub.StillBetween`: a hub that changes only in the pauses.
* `Run.serve_error`: what a failed request leaves behind.
-/

namespace BoardFarm

/-- A pause of an operation: the hub that waits, and what happens meanwhile. -/
structure Pause where
  hub : Hub
  events : List Event
  deriving DecidableEq, Repr

/-- The hub behind a pause. -/
def Pause.after (p : Pause) : Hub := p.hub.applyAll p.events

/-! ## Still hubs -/

namespace Hub

/-- Nobody who follows places can notice the change, and the mark of a change is the same. -/
structure Still (hub hub' : Hub) : Prop where
  quiet : Quiet hub hub'
  dirty : hub'.dirty = hub.dirty

theorem Still.refl (hub : Hub) : Still hub hub := ⟨.refl hub, rfl⟩

theorem Still.trans {hub hub₁ hub₂ : Hub} (h : Still hub hub₁) (h' : Still hub₁ hub₂) :
    Still hub hub₂ :=
  ⟨h.quiet.trans h'.quiet, h'.dirty.trans h.dirty⟩

theorem still_modifyLink (hub : Hub) (id : Nat) (f : Link → Link) :
    Still hub (hub.modifyLink id f) :=
  ⟨quiet_modifyLink hub id f, rfl⟩

theorem still_modifyRecord (hub : Hub) (h : Handle) (f : ResourceRecord → ResourceRecord) :
    Still hub (hub.modifyRecord h f) :=
  ⟨.of_eq rfl rfl rfl rfl rfl, rfl⟩

theorem still_publishResource (hub : Hub) (h : Handle) : Still hub (hub.publishResource h) :=
  ⟨quiet_tellResources hub rfl, rfl⟩

theorem quiet_applyAll (hub : Hub) (events : List Event) : Quiet hub (hub.applyAll events) := by
  refine List.foldlRecOn _ _ (motive := Quiet hub) (.refl hub) ?_
  exact fun hub₁ h₁ e _ => h₁.trans (quiet_apply hub₁ e)

/-- The hub changes in some pauses only: from each pause to the next one it stays still. -/
def StillBetween : Hub → List Pause → Hub → Prop
  | hub, [], hub' => Still hub hub'
  | hub, p :: rest, hub' => Still hub p.hub ∧ StillBetween p.after rest hub'

variable {hub hub₁ hub₂ : Hub} {pauses : List Pause}

theorem StillBetween.still (h : StillBetween hub pauses hub₁) (h' : Still hub₁ hub₂) :
    StillBetween hub pauses hub₂ := by
  induction pauses generalizing hub with
  | nil => exact Still.trans h h'
  | cons p rest ih => exact ⟨h.1, ih h.2⟩

theorem StillBetween.pause (h : StillBetween hub pauses hub₁) (events : List Event) :
    StillBetween hub (pauses ++ [⟨hub₁, events⟩]) (hub₁.applyAll events) := by
  induction pauses generalizing hub with
  | nil => exact ⟨h, .refl _⟩
  | cons p rest ih => exact ⟨h.1, ih h.2⟩

theorem StillBetween.quiet (h : StillBetween hub pauses hub₁) : Quiet hub hub₁ := by
  induction pauses generalizing hub with
  | nil => exact Still.quiet h
  | cons p rest ih => exact (h.1.quiet.trans (quiet_applyAll p.hub p.events)).trans (ih h.2)

/-- If no pause touches the mark of a change, it is the same in the end. -/
theorem StillBetween.dirty (h : StillBetween hub pauses hub₁)
    (hpauses : ∀ p ∈ pauses, p.after.dirty = p.hub.dirty) : hub₁.dirty = hub.dirty := by
  induction pauses generalizing hub with
  | nil => exact Still.dirty h
  | cons p rest ih =>
    have hrest := ih h.2 (fun q hq => hpauses q (List.mem_cons_of_mem p hq))
    rw [hrest, hpauses p List.mem_cons_self, h.1.dirty]

end Hub

/-! ## Records of the pauses -/

variable {ω : Type}

/-- Surroundings that keep a record of the pauses. -/
def recorded (react : Surroundings ω) : Surroundings (ω × List Pause) := fun hub around =>
  let (events, next) := react hub around.1
  (events, (next, around.2 ++ [⟨hub, events⟩]))

namespace Run

/-- A run without the record of its pauses. -/
def forget (r : Run (ω × List Pause)) : Run ω := ⟨r.hub, r.around.1, r.attempts⟩

@[simp] theorem forget_hub (r : Run (ω × List Pause)) : r.forget.hub = r.hub := rfl

variable (react : Surroundings ω)

theorem exchange_forget (r : Run (ω × List Pause)) (id : Nat) (c : Command) :
    r.forget.exchange react id c =
      ((r.exchange (recorded react) id c).1, (r.exchange (recorded react) id c).2.forget) :=
  rfl

theorem confirm_forget (r : Run (ω × List Pause)) (h : Handle) (place : Option String)
    (o : Outcome) : confirm h place o r.forget = (confirm h place o r).forget := by
  cases o <;> rfl

theorem command_forget (r : Run (ω × List Pause)) (h : Handle) (place : Option String) :
    r.forget.command react h place =
      ((r.command (recorded react) h place).1, (r.command (recorded react) h place).2.forget) := by
  unfold command
  rw [forget_hub]
  cases r.hub.linkOf h.path.exporter with
  | none => rfl
  | some id =>
    dsimp only
    rw [exchange_forget]
    dsimp only
    rw [confirm_forget]
    rfl

theorem release_forget (r : Run (ω × List Pause)) (h : Handle) :
    release react r.forget h = (release (recorded react) r h).forget := by
  unfold release
  rw [command_forget]
  dsimp only
  cases (r.command (recorded react) h none).1 <;> rfl

theorem foldl_release_forget (l : List Handle) (r : Run (ω × List Pause)) :
    l.foldl (release react) r.forget = (l.foldl (release (recorded react)) r).forget := by
  induction l generalizing r with
  | nil => rfl
  | cons h rest ih =>
    rw [List.foldl_cons, release_forget, ih]
    rfl

theorem acquireEach_forget (name : String) (handles acquired : List Handle)
    (r : Run (ω × List Pause)) :
    acquireEach react name handles acquired r.forget =
      ((acquireEach (recorded react) name handles acquired r).1,
        (acquireEach (recorded react) name handles acquired r).2.forget) := by
  induction handles generalizing acquired r with
  | nil => rfl
  | cons h rest ih =>
    unfold acquireEach
    rw [command_forget]
    dsimp only
    cases (r.command (recorded react) h (some name)).1 with
    | done => exact ih (acquired ++ [h]) _
    | failed cause =>
      dsimp only
      rw [foldl_release_forget]

theorem acquireAll_forget (name : String) (handles : List Handle) (r : Run (ω × List Pause)) :
    acquireAll react name handles r.forget =
      ((acquireAll (recorded react) name handles r).1,
        (acquireAll (recorded react) name handles r).2.forget) := by
  unfold acquireAll
  rw [forget_hub]
  cases handles.findSome? (fun h => r.hub.obstacle name h) with
  | some e => rfl
  | none => exact acquireEach_forget react name handles [] r

theorem acquirePlace_forget (now : Nat) (name principal : String) (r : Run (ω × List Pause)) :
    acquirePlace react now name principal r.forget =
      ((acquirePlace (recorded react) now name principal r).1,
        (acquirePlace (recorded react) now name principal r).2.forget) := by
  unfold acquirePlace
  rw [forget_hub]
  cases r.hub.places.get? name with
  | none => rfl
  | some p =>
    dsimp only
    cases acquisitionError r.hub p principal with
    | some e => rfl
    | none =>
      dsimp only
      rw [acquireAll_forget]
      obtain ⟨result, r'⟩ := acquireAll (recorded react) name (r.hub.claimed p) r
      cases result <;> rfl

theorem releaseEach_forget (handles : List Handle) (r : Run (ω × List Pause)) :
    releaseEach react handles r.forget = (releaseEach (recorded react) handles r).forget := by
  unfold releaseEach
  induction handles generalizing r with
  | nil => rfl
  | cons h rest ih =>
    rw [List.foldl_cons, List.foldl_cons, forget_hub]
    split
    · exact ih r
    · rw [release_forget]
      exact ih _

theorem releasePlace_forget (now : Nat) (name : String) (user : Option String)
    (r : Run (ω × List Pause)) :
    releasePlace react now name user r.forget =
      ((releasePlace (recorded react) now name user r).1,
        (releasePlace (recorded react) now name user r).2.forget) := by
  unfold releasePlace
  rw [forget_hub]
  cases r.hub.places.get? name with
  | none => rfl
  | some p =>
    dsimp only
    split
    · rfl
    · split
      · rfl
      · rw [releaseEach_forget]
        rfl

/-- The record of the pauses has no influence on a request. -/
theorem serve_forget (now : Nat) (token : Token) (address : Option String) (request : Request)
    (r : Run (ω × List Pause)) :
    r.forget.serve react now token address request =
      ((r.serve (recorded react) now token address request).1,
        (r.serve (recorded react) now token address request).2.forget) := by
  have hchange : ∀ x, r.forget.change x = ((r.change x).1, (r.change x).2.forget) :=
    fun x => by cases x <;> rfl
  have hanswer : ∀ x, r.forget.answer x = ((r.answer x).1, (r.answer x).2.forget) :=
    fun x => by cases x <;> rfl
  have hprincipal : ∀ (f : String → Except RequestError Reply × Run ω)
      (g : String → Except RequestError Reply × Run (ω × List Pause)),
      (∀ user, f user = ((g user).1, (g user).2.forget)) → r.forget.withPrincipal address f =
        ((r.withPrincipal address g).1, (r.withPrincipal address g).2.forget) := by
    intro f g hfg
    unfold withPrincipal
    rw [forget_hub]
    cases r.hub.principalAt address with
    | error e => rfl
    | ok user => exact hfg user
  cases request with
  | acquire place =>
    refine hprincipal _ _ ?_
    intro user
    dsimp only
    rw [acquirePlace_forget]
  | release place user =>
    unfold serve
    dsimp only
    rw [releasePlace_forget]
  | allow place user => exact hprincipal _ _ (fun principal => hchange _)
  | reserve filters prio => exact hprincipal _ _ (fun user => hanswer _)
  | poll text => exact hanswer _
  | _ => exact hchange _

/-! ## Runs that change the hub in pauses only -/

/-- From a hub on, the run has changed the hub in the recorded pauses only. -/
def Tracked (hub : Hub) (r : Run (ω × List Pause)) : Prop :=
  hub.StillBetween r.around.2 r.hub

variable {hub : Hub} {r : Run (ω × List Pause)}

theorem Tracked.modify (h : Tracked hub r) {f : Hub → Hub} (hf : r.hub.Still (f r.hub)) :
    Tracked hub (r.modify f) :=
  Hub.StillBetween.still h hf

theorem Tracked.wait (h : Tracked hub r) : Tracked hub (r.wait (recorded react)) :=
  Hub.StillBetween.pause h (react r.hub r.around.1).1

theorem Tracked.exchange (h : Tracked hub r) (id : Nat) (c : Command) :
    Tracked hub (r.exchange (recorded react) id c).2 :=
  Tracked.modify (Tracked.wait react (h.modify (Hub.still_modifyLink ..)))
    (Hub.still_modifyLink ..)

theorem Tracked.command (h : Tracked hub r) (x : Handle) (place : Option String) :
    Tracked hub (r.command (recorded react) x place).2 := by
  unfold Run.command
  split
  · exact h
  · rename_i id _
    have hexchange := h.exchange react id ⟨x.path.group, x.path.name, place⟩
    show Tracked hub (confirm x place _ _)
    unfold confirm
    split
    · exact hexchange.modify (Hub.still_modifyRecord ..)
    · exact hexchange

theorem Tracked.release (h : Tracked hub r) (x : Handle) :
    Tracked hub (release (recorded react) r x) := by
  have hcommand := h.command react x none
  unfold Run.release
  dsimp only
  split
  · exact hcommand
  · exact hcommand.modify (Hub.still_publishResource ..)

/-- Handles that are acquired and given back change nothing of the places. -/
theorem Tracked.acquireEach (h : Tracked hub r) (name : String) (handles acquired : List Handle) :
    Tracked hub (acquireEach (recorded react) name handles acquired r).2 := by
  induction handles generalizing acquired r with
  | nil => exact h
  | cons x rest ih =>
    have hcommand := h.command react x (some name)
    unfold Run.acquireEach
    dsimp only
    split
    · exact ih hcommand _
    · refine List.foldlRecOn _ _ (motive := Tracked hub) hcommand ?_
      exact fun r₁ h₁ y _ => h₁.release react y

/-! ## Errors -/

variable {σ : Type} {around : Surroundings σ} {e : RequestError} {now : Nat} {token : Token}
  {address : Option String} {request : Request} {q q' : Run σ}

theorem acquireEach_error {name : String} {handles acquired : List Handle}
    (h : acquireEach around name handles acquired q = (.error e, q')) :
    ∃ path cause, e = .exporter path cause := by
  induction handles generalizing acquired q with
  | nil => cases h
  | cons x rest ih =>
    unfold acquireEach at h
    dsimp only at h
    split at h
    · exact ih h
    · cases h
      exact ⟨_, _, rfl⟩

theorem acquirePlace_error {name principal : String}
    (h : acquirePlace around now name principal q = (.error e, q')) :
    q' = q ∨ ∃ handles, acquireEach around name handles [] q = (.error e, q') := by
  unfold acquirePlace at h
  split at h
  · exact Or.inl (Prod.mk.inj h).2.symm
  · rename_i p _
    split at h
    · exact Or.inl (Prod.mk.inj h).2.symm
    · unfold acquireAll at h
      split at h
      · rename_i hall
        cases h
        split at hall
        · exact Or.inl (Prod.mk.inj hall).2.symm
        · exact Or.inr ⟨_, hall⟩
      · cases (Prod.mk.inj h).1

theorem releasePlace_error {name : String} {user : Option String}
    (h : releasePlace around now name user q = (.error e, q')) : q' = q := by
  unfold releasePlace at h
  split at h
  · exact (Prod.mk.inj h).2.symm
  · split at h
    · cases (Prod.mk.inj h).1
    · split at h
      · exact (Prod.mk.inj h).2.symm
      · cases (Prod.mk.inj h).1

/-- A request that fails has done nothing, or it has failed to acquire the claimed handles. -/
theorem serve_error_cases (h : q.serve around now token address request = (.error e, q')) :
    q' = q ∨ ∃ name handles, acquireEach around name handles [] q = (.error e, q') := by
  have hchange : ∀ {x}, q.change x = (.error e, q') → q' = q := by
    intro x hx
    cases x with
    | error cause => exact (Prod.mk.inj hx).2.symm
    | ok hub => cases (Prod.mk.inj hx).1
  have hanswer : ∀ {x}, q.answer x = (.error e, q') → q' = q := by
    intro x hx
    cases x with
    | error cause => exact (Prod.mk.inj hx).2.symm
    | ok x => cases (Prod.mk.inj hx).1
  have hprincipal : ∀ {f}, q.withPrincipal address f = (.error e, q') →
      q' = q ∨ ∃ user, f user = (.error e, q') := by
    intro f hf
    unfold withPrincipal at hf
    split at hf
    · exact Or.inl (Prod.mk.inj hf).2.symm
    · exact Or.inr ⟨_, hf⟩
  cases request with
  | acquire place =>
    rcases hprincipal h with hsame | ⟨user, hacquire⟩
    · exact Or.inl hsame
    · rcases hr : acquirePlace around now place user q with ⟨result, r⟩
      dsimp only at hacquire
      rw [hr] at hacquire
      cases result with
      | ok _ => cases (Prod.mk.inj hacquire).1
      | error cause =>
        cases hacquire
        exact (acquirePlace_error hr).imp_right (fun ⟨handles, hh⟩ => ⟨place, handles, hh⟩)
  | release place user =>
    unfold serve at h
    rcases hr : releasePlace around now place (nonEmpty? user) q with ⟨result, r⟩
    dsimp only at h
    rw [hr] at h
    cases result with
    | ok _ => cases (Prod.mk.inj h).1
    | error cause =>
      cases h
      exact Or.inl (releasePlace_error hr)
  | allow place user =>
    rcases hprincipal h with hsame | ⟨principal, hallow⟩
    · exact Or.inl hsame
    · exact Or.inl (hchange hallow)
  | reserve filters prio =>
    rcases hprincipal h with hsame | ⟨user, hreserve⟩
    · exact Or.inl hsame
    · exact Or.inl (hanswer hreserve)
  | poll text => exact Or.inl (hanswer h)
  | _ => exact Or.inl (hchange h)

/-- A request that fails leaves the places, the reservations and the retries as they are, and tells
nobody of a place; all the rest changes in the pauses only, and so does the mark of a change. If the
failure is not that of an exporter's command, nothing has happened at all. -/
theorem serve_error {react : Surroundings ω} {hub : Hub} {around : ω} {r : Run ω}
    (h : (Run.start hub around).serve react now token address request = (.error e, r)) :
    Hub.Quiet hub r.hub ∧
    (∃ pauses, (Run.start hub (around, [])).serve (recorded react) now token address request =
        (.error e, ⟨r.hub, (r.around, pauses), r.attempts⟩) ∧
      hub.StillBetween pauses r.hub ∧
      ((∀ p ∈ pauses, p.after.dirty = p.hub.dirty) → r.hub.dirty = hub.dirty)) ∧
    ((∀ path cause, e ≠ .exporter path cause) → r = Run.start hub around) := by
  -- the same request with a record of its pauses
  rcases hrecord : (Run.start hub (around, [])).serve (recorded react) now token address request
    with ⟨result, r'⟩
  have hforget := serve_forget react now token address request (Run.start hub (around, []))
  rw [hrecord] at hforget
  obtain ⟨hresult, hr⟩ := Prod.mk.inj (h.symm.trans hforget)
  dsimp only at hresult hr
  subst hresult hr
  have hcases := serve_error_cases hrecord
  have htracked : Tracked hub r' := by
    have hstart : Tracked hub (Run.start hub (around, [])) := Hub.Still.refl hub
    rcases hcases with rfl | ⟨name, handles, heach⟩
    · exact hstart
    · have hafter := hstart.acquireEach react name handles []
      rwa [heach] at hafter
  refine ⟨htracked.quiet, ⟨r'.around.2, rfl, htracked, Hub.StillBetween.dirty htracked⟩, ?_⟩
  intro he
  rcases hcases with rfl | ⟨name, handles, heach⟩
  · rfl
  · obtain ⟨path, cause, hcause⟩ := acquireEach_error heach
    exact absurd hcause (he path cause)

/-- The small laboratory before the place is acquired. -/
def vacantLab : Hub := (Station.empty.play (Station.labScenes.take 9)).2.hub

/-- The exporter refuses to be acquired for the user of the laboratory. -/
def refusedRun : Except RequestError Reply × Run (List (List Event)) :=
  (Run.start vacantLab [[.exporterTakes 0, .exporterTakes 0,
    .exporterSends 0 (.response ⟨false, some "busy"⟩)]]).serve Station.scripted 7
      (Identifier.ofNat .reservation 4) (some "desk") (.acquire "board")

/-- Why a request has failed. -/
def cause? : Except RequestError Reply → Option RequestError
  | .error e => some e
  | .ok _ => none

theorem eq_error_of_cause? {x : Except RequestError Reply} {e : RequestError}
    (h : cause? x = some e) : x = .error e := by
  cases x with
  | error cause => exact congrArg Except.error (Option.some.inj h)
  | ok reply => cases h

theorem serve_error_busy :
    refusedRun.1 = .error (.exporter ⟨"lab", "rack", "PowerPort", "relay"⟩ (.rejected "busy")) ∧
    refusedRun.2.attempts.length = 1 ∧ refusedRun.2.hub.places = vacantLab.places ∧
    refusedRun.2.hub.dirty = vacantLab.dirty := by
  have herror : refusedRun.1 =
      .error (.exporter ⟨"lab", "rack", "PowerPort", "relay"⟩ (.rejected "busy")) :=
    eq_error_of_cause? (by decide +kernel)
  obtain ⟨hquiet, _, _⟩ := serve_error (Prod.ext herror rfl : refusedRun = (_, refusedRun.2))
  exact ⟨herror, by decide +kernel, hquiet.places, by decide +kernel⟩

end Run

end BoardFarm
