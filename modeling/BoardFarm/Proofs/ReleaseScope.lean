import BoardFarm.Proofs.HandleOrigins
import BoardFarm.Proofs.Trials

/-!
# What a release can free

Places own full paths, while a command names group and resource only. The two notions differ
where an exporter has published a resource again under another class: then one place may list
the old handle and another place may own the new one. Then the old handle is an orphan that is
published no more, so the release of the new one takes nothing from a place that owns it.

* `Run.perform_tries`: for which handles operations try releases.
* `Station.Course.release_scope`: what other places hold when a release is tried.
-/

namespace BoardFarm

/-- The place that an operation acquires or releases for a user. -/
def Operation.place? : Operation → Option String
  | .request _ _ (.acquire place) => some place
  | .request _ _ (.release place _) => some place
  | _ => none

namespace Hub

/-- Commands one behind the other. -/
inductive Commands (tells : Bool) : Hub → List (Hub × Attempt) → Hub → Prop
  | nil (hub : Hub) : Commands tells hub [] hub
  | cons {hub hub' : Hub} {a : Attempt} {l : List (Hub × Attempt)}
      (hx : Exchange tells hub [] a.hub) (h : Commands tells (a.settled tells) l hub') :
      Commands tells hub ((hub, a) :: l) hub'

/-- A handle that has left the tree without being flagged. -/
def Stray (hub : Hub) (x : Handle) : Prop := x ∉ hub.published ∧ hub.isOrphaned x = false

/-! ## Commands in a row -/

variable {tells : Bool} {hub hub₁ : Hub} {l : List (Hub × Attempt)}

theorem Commands.tried_eq (h : Commands tells hub l hub₁) :
    hub.tried tells (l.map Prod.snd) = l := by
  induction h with
  | nil => rfl
  | cons _ _ ih =>
    rw [List.map_cons]
    exact congrArg (List.cons _) ih

/-- Trials are such commands. -/
theorem Trials.commands {l : List Attempt} (h : Trials hub l hub₁) :
    Commands true hub (hub.tried true l) hub₁ := by
  induction h with
  | nil hub => exact .nil hub
  | cons x place events _ ih => exact .cons (exchange_attempt ..) ih

theorem Commands.exchange (h : Commands tells hub l hub₁) {e : Hub × Attempt} (he : e ∈ l) :
    ∃ past, Exchange tells hub past e.1 := by
  induction h with
  | nil => cases he
  | @cons hub _ a _ hx _ ih =>
    rcases List.mem_cons.mp he with rfl | hrest
    · exact ⟨[], .refl⟩
    · obtain ⟨past, hpast⟩ := ih hrest
      exact ⟨_, (hx.settle).trans hpast⟩

end Hub

namespace Run

variable {ω : Type} {react : Surroundings ω} {tells : Bool}

/-- A run tries some commands, one behind the other. -/
def Tries (tells : Bool) (r : Run ω) (l : List (Hub × Attempt)) (r' : Run ω) : Prop :=
  r'.attempts = r.attempts ++ l.map Prod.snd ∧ Hub.Commands tells r.hub l r'.hub

theorem Tries.refl (r : Run ω) : Tries tells r [] r := ⟨by simp, .nil r.hub⟩

theorem Tried.tries {r r' : Run ω} {l : List Attempt} (h : Tried r l r') :
    Tries true r (r.hub.tried true l) r' := by
  refine ⟨?_, h.2.commands⟩
  rw [Hub.map_snd_tried]
  exact h.1

/-- A release tries the handles that are not orphans when their turn comes. -/
theorem releaseEach_tries (react : Surroundings ω) (handles : List Handle) (r : Run ω) :
    ∃ l, Tries true r l (releaseEach react handles r) ∧
      ∀ e ∈ l, e.2.handle ∈ handles ∧ e.1.isOrphaned e.2.handle = false := by
  obtain ⟨l, htried, hturns⟩ := releaseEach_tried react handles r
  refine ⟨_, htried.tries, fun e he => ?_⟩
  obtain ⟨hhandle, hflag, _⟩ := hturns.tried he
  exact ⟨hhandle, hflag⟩

/-- An acquisition tries its handles only, those that it has acquired again after a failure. -/
theorem acquireEach_tries (react : Surroundings ω) (name : String) (handles acquired : List Handle)
    (r : Run ω) :
    ∃ l, Tries true r l (acquireEach react name handles acquired r).2 ∧
      ∀ e ∈ l, e.2.handle ∈ acquired ++ handles := by
  rcases acquireEach_tried react name handles acquired r with
    ⟨l, r', he, htried, hasks, _⟩ |
    ⟨done, rest, granted, failed, released, cause, r', rfl, he, htried, ⟨hasks, _⟩, _, hback⟩
  · rw [he]
    refine ⟨_, htried.tries, fun e hmem => ?_⟩
    exact List.mem_append_right _ (hasks.place_eq (Hub.mem_of_mem_tried hmem)).1
  · rw [he]
    refine ⟨_, htried.tries, fun e hmem => ?_⟩
    rcases List.mem_append.mp (Hub.mem_of_mem_tried hmem) with hfirst | hlater
    · simp [(hasks.place_eq hfirst).1]
    · rcases List.mem_cons.mp hlater with hfailed | hreleased
      · simp [hfailed]
      · have hold := (hback.place_eq hreleased).1
        rw [List.mem_reverse, List.mem_append] at hold
        rcases hold with hold | hold <;> simp [hold]

theorem acquireAll_tries (react : Surroundings ω) (name : String) (handles : List Handle)
    (r : Run ω) :
    ∃ l, Tries true r l (acquireAll react name handles r).2 ∧
      ∀ e ∈ l, e.2.handle ∈ handles ∧ r.hub.obstacle name e.2.handle = none := by
  unfold acquireAll
  split
  · exact ⟨[], .refl r, fun e he => by cases he⟩
  · rename_i hnone
    obtain ⟨l, hl, hall⟩ := acquireEach_tries react name handles [] r
    refine ⟨l, hl, ?_⟩
    intro e he
    have hmem : e.2.handle ∈ handles := by simpa using hall e he
    exact ⟨hmem, List.findSome?_eq_none_iff.mp hnone _ hmem⟩

/-! ## Operations -/

/-- What a user's operation releases: what the place holds and is not flagged when its turn
comes, or what it has just acquired for the place. -/
inductive Releases (hub : Hub) (name : String) (e : Hub × Attempt) : Prop
  | held {p : Place} (hp : hub.places.get? name = some p) (hh : e.2.handle ∈ p.held)
      (hflag : e.1.isOrphaned e.2.handle = false)
  | acquired (hh : e.2.handle ∈ hub.published) (hfree : hub.obstacle name e.2.handle = none)

/-- All commands between two states of a run are tried for one place. -/
def TriesFor (name : String) (r r' : Run ω) : Prop :=
  ∃ l hub', r'.attempts = r.attempts ++ l.map Prod.snd ∧ Hub.Commands true r.hub l hub' ∧
    ∀ e ∈ l, Releases r.hub name e

theorem TriesFor.refl (name : String) (r : Run ω) : TriesFor name r r :=
  ⟨[], r.hub, by simp, .nil _, fun e he => by cases he⟩

theorem acquirePlace_tries (react : Surroundings ω) (now : Nat) (name principal : String)
    (r : Run ω) : TriesFor name r (acquirePlace react now name principal r).2 := by
  unfold acquirePlace
  split
  · exact .refl name r
  · rename_i p _
    split
    · exact .refl name r
    · obtain ⟨l, ⟨hattempts, hcommands⟩, hall⟩ :=
        acquireAll_tries react name (r.hub.claimed p) r
      have hreleases : ∀ e ∈ l, Releases r.hub name e := by
        intro e he
        obtain ⟨hclaimed, hfree⟩ := hall e he
        exact .acquired (published_of_mem_claimed hclaimed) hfree
      split <;> rename_i hr <;> rw [hr] at hattempts hcommands
      · exact ⟨l, _, hattempts, hcommands, hreleases⟩
      · exact ⟨l, _, hattempts, hcommands, hreleases⟩

theorem releasePlace_tries (react : Surroundings ω) (now : Nat) (name : String)
    (user : Option String) (r : Run ω) :
    TriesFor name r (releasePlace react now name user r).2 := by
  unfold releasePlace
  split
  · exact .refl name r
  · rename_i p hp
    split
    · exact .refl name r
    · split
      · exact .refl name r
      · obtain ⟨l, ⟨hattempts, hcommands⟩, hall⟩ := releaseEach_tries react p.held r
        refine ⟨l, _, hattempts, hcommands, ?_⟩
        intro e he
        obtain ⟨hheld, hflag⟩ := hall e he
        exact .held hp hheld hflag

/-- The further commands of a run acquire something. -/
def Acquires (r r' : Run ω) : Prop :=
  ∃ l, r'.attempts = r.attempts ++ l ∧ ∀ a ∈ l, a.place.isSome

theorem Acquires.of_eq {r r' : Run ω} (h : r'.attempts = r.attempts) : Acquires r r' :=
  ⟨[], by simp [h], fun a ha => by cases ha⟩

/-- A single handle is acquired or not, so there is nothing to be released after a failure. -/
theorem acquireAll_single (react : Surroundings ω) (name : String) (h : Handle) (r : Run ω) :
    Acquires r (acquireAll react name [h] r).2 := by
  unfold acquireAll
  split
  · exact .of_eq rfl
  · obtain ⟨events, _, hattempts, _⟩ := acquire_tried react r h name
    refine ⟨[r.hub.attempt h (some name) events], ?_, ?_⟩
    · unfold acquireEach
      dsimp only
      split
      · exact hattempts
      · exact hattempts
    · intro a' ha'
      rw [List.mem_singleton.mp ha', Hub.place_attempt]
      rfl

theorem resourceAdded_acquires (react : Surroundings ω) (now : Nat) (h : Handle) (r : Run ω) :
    Acquires r (resourceAdded react now h r) := by
  unfold resourceAdded
  dsimp only
  generalize hr₁ : r.modify (fun hub => hub.addDefaultPlace now h.path.group) = r₁
  have hsame : r₁.attempts = r.attempts := by
    rw [← hr₁]
    rfl
  split
  · exact .of_eq hsame
  · rename_i p _
    obtain ⟨l, hl, hall⟩ := acquireAll_single react p.name h r₁
    rw [hsame] at hl
    split <;> rename_i hr <;> rw [hr] at hl
    · exact ⟨l, hl, hall⟩
    · exact ⟨l, hl, hall⟩

theorem nextFollowUp_acquires (react : Surroundings ω) (now link : Nat) (r : Run ω) :
    Acquires r (nextFollowUp react now link r) := by
  unfold nextFollowUp
  split
  · exact .of_eq rfl
  · unfold followUp
    dsimp only
    split
    · exact resourceAdded_acquires react now _ (r.modify _)
    · exact .of_eq rfl

theorem acquires_change (r : Run ω) (e : Except RequestError Hub) :
    Acquires r (r.change e).2 := by
  cases e <;> exact .of_eq rfl

theorem acquires_answer (r : Run ω) (e : Except RequestError (Reservation × Hub)) :
    Acquires r (r.answer e).2 := by
  cases e <;> exact .of_eq rfl

theorem acquires_withPrincipal {r : Run ω} {address : Option String}
    {serve : String → Except RequestError Reply × Run ω}
    (h : ∀ user, Acquires r (serve user).2) : Acquires r (r.withPrincipal address serve).2 := by
  unfold withPrincipal
  split
  · exact .of_eq rfl
  · exact h _

theorem serve_tries (react : Surroundings ω) (now : Nat) (token : Token)
    (address : Option String) (request : Request) (r : Run ω) :
    Acquires r (r.serve react now token address request).2 ∨
      ∃ name, Operation.place? (.request token address request) = some name ∧
        TriesFor name r (r.serve react now token address request).2 := by
  cases request with
  | acquire name =>
    refine Or.inr ⟨name, rfl, ?_⟩
    unfold serve withPrincipal
    dsimp only
    split
    · exact .refl name r
    · exact acquirePlace_tries react now name _ r
  | release name user => exact Or.inr ⟨name, rfl, releasePlace_tries react now name _ r⟩
  | allow place user =>
    exact Or.inl (acquires_withPrincipal (fun _ => acquires_change r _))
  | reserve filters prio =>
    exact Or.inl (acquires_withPrincipal (fun _ => acquires_answer r _))
  | poll text => exact Or.inl (acquires_answer r _)
  | _ => exact Or.inl (acquires_change r _)

/-- Beside the passes of reconciliation, only the acquisitions and releases of places try
releases. -/
theorem perform_tries (react : Surroundings ω) (now : Nat) {op : Operation}
    (hsync : ∀ readings, op ≠ .synchronize readings) (r : Run ω) :
    Acquires r (r.perform react now op) ∨
      ∃ name, op.place? = some name ∧ TriesFor name r (r.perform react now op) := by
  cases op with
  | event e => exact Or.inl (.of_eq rfl)
  | message client m => exact Or.inl (.of_eq rfl)
  | request token address request => exact serve_tries react now token address request r
  | followUp link => exact Or.inl (nextFollowUp_acquires react now link r)
  | schedule => exact Or.inl (.of_eq rfl)
  | synchronize readings => exact absurd rfl (hsync readings)

end Run

namespace Hub

/-- What other places hold when a release is tried for a place. -/
theorem release_scope_of {hub hub₁ : Hub} {l : List (Hub × Attempt)} {name : String}
    (hn : hub.Named) (hf : hub.Filed) (hsole : SoleOwner hub.places)
    (hserials : ∀ x, hub.Holds x → x.serial < hub.records.size)
    (hc : Commands true hub l hub₁) {e : Hub × Attempt} (he : e ∈ l)
    (hr : Run.Releases hub name e) {q : Place} (hq : q ∈ e.1.places.values)
    (hother : q.name ≠ name) {x : Handle} (hx : x ∈ q.held) :
    x.path ≠ e.2.handle.path ∧ (x.path.slot = e.2.handle.path.slot → ¬ e.1.Stray x →
      ¬ e.1.Stray e.2.handle → e.1.isOrphaned x = true ∧ x ∉ e.1.published) := by
  obtain ⟨past, hpast⟩ := hc.exchange he
  have hf₁ : e.1.Filed := hpast.filed hf
  rw [hpast.quiet.places] at hq
  have hget : hub.places.get? q.name = some q := hn.get?_name hq
  -- no other place holds the path of the handle
  have hnot : q.holdsPath e.2.handle.path = false := by
    cases hr with
    | held hp hh _ => exact hsole.apart hp hget (fun hname => hother hname.symm) _ hh
    | acquired _ hfree =>
      exact not_holdsPath_of_otherHolder hn (Run.otherHolder_of_obstacle hfree) hget hother
  have hpath : x.path ≠ e.2.handle.path := by
    intro hsame
    rw [Place.holdsPath_eq_false_iff] at hnot
    exact hnot (hsame ▸ List.mem_map_of_mem hx)
  refine ⟨hpath, ?_⟩
  intro hslot hstray hstray'
  have hgone : x ∉ e.1.published := by
    intro hmem
    cases hr with
    | held _ _ hfree =>
      have hmem' : e.2.handle ∈ e.1.published := by
        by_contra hgone
        exact hstray' ⟨hgone, hfree⟩
      exact hpath (congrArg Handle.path (hf₁.eq_of_slot hmem hmem' hslot))
    | acquired hh _ =>
      -- the handle was published when the operation started, so `x` was not and still is not
      have hlt := hserials x ⟨q, hq, hx⟩
      have hmem' : x ∈ hub.published := (hpast.published_of_serial hf).2 x hmem hlt
      exact hpath (congrArg Handle.path (hf.eq_of_slot hmem' hh hslot))
  refine ⟨?_, hgone⟩
  by_contra hflag
  exact hstray ⟨hgone, by simpa using hflag⟩

end Hub

/-! ## Courses -/

namespace Station

variable {settings : HubSettings} {directory : Option StateDirectory} {start s t : Station}
  {turns : List Turn} {turn : Turn}

/-- Beside the passes of reconciliation, a release is tried only when a user acquires or releases
a place. Then no other place holds the path of the released handle. Another place that holds the
same exporter, group and name holds an orphan that is not published any more, unless one of the two
handles has left the tree without being flagged. -/
theorem Course.release_scope (h : Station.start settings directory = .ok start)
    (hc : Course start turns s) (hs : Step s turn t) {op : Operation}
    (hop : turn.operation = some op) (hsync : ∀ readings, op ≠ .synchronize readings)
    {e : Hub × Attempt} (he : e ∈ s.hub.tried op.tells turn.attempts)
    (hrelease : e.2.place = none) :
    ∃ name, op.place? = some name ∧
      ∀ q ∈ e.1.places.values, q.name ≠ name → ∀ x ∈ q.held,
        x.path ≠ e.2.handle.path ∧ (x.path.slot = e.2.handle.path.slot →
          ¬ e.1.Stray x → ¬ e.1.Stray e.2.handle →
            e.1.isOrphaned x = true ∧ x ∉ e.1.published) := by
  obtain ⟨hn, hf⟩ := hc.filed h
  have htells : op.tells = true := by
    cases op with
    | synchronize readings => exact absurd rfl (hsync readings)
    | _ => rfl
  rw [htells] at he
  cases hs with
  | operate react around now op' =>
    cases hop
    rcases Run.perform_tries react now hsync (Run.start s.hub around) with
      ⟨l, hl, hall⟩ | ⟨name, hname, l, hub', hl, hcommands, hreleases⟩
    · have hattempts : (s.operate react around now op).attempts = l :=
        hl.trans (List.nil_append l)
      have hsome := hall e.2 (hattempts ▸ Hub.mem_of_mem_tried he)
      rw [hrelease] at hsome
      cases hsome
    · have hattempts : (s.operate react around now op).attempts = l.map Prod.snd :=
        hl.trans (List.nil_append _)
      have hrow : Hub.Commands true s.hub l hub' := hcommands
      dsimp only at he
      rw [hattempts, hrow.tried_eq] at he
      refine ⟨name, hname, ?_⟩
      intro q hq hother x hx
      exact Hub.release_scope_of hn hf (hc.soleOwner h).1 (fun x hx => (hc.eq_of_serial h hx).1)
        hcommands he (hreleases e he) hq hother hx
  | save now => cases hop
  | saveIfDirty now => cases hop

/-! ## A resource of another class -/

/-- Behind the scenes of the small laboratory the exporter publishes the relay again as a switch.
The user adds a place that claims the switch, and acquires it. -/
def switchScenes : List Scene :=
  labScenes ++
    [⟨8, .event (.exporterSends 0 (.resource
        ⟨some ("rack", "relay"), "Switch", SortedMap.empty, "", true⟩)), []⟩,
     ⟨9, .request (Identifier.ofNat .reservation 5) none (.addPlace "bench"), []⟩,
     ⟨10, .request (Identifier.ofNat .reservation 6) none
        (.addMatch "bench" "lab/rack/Switch" none), []⟩,
     ⟨11, .request (Identifier.ofNat .reservation 7) (some "desk") (.acquire "bench"),
        [[.exporterTakes 0, .exporterSends 0 (.response Answer.done)]]⟩]

/-- The small laboratory with the relay that has become a switch. -/
def switched : Station := (empty.play switchScenes).2

def releaseBench : Operation :=
  .request (Identifier.ofNat .reservation 8) none (.release "bench" none)

/-- The exporter confirms the release of the switch. -/
def switchedRun : Run (List (List Event)) :=
  switched.operate scripted [[.exporterTakes 0, .exporterSends 0 (.response Answer.done)]] 12
    releaseBench

theorem step_releaseBench :
    Step switched ⟨12, some releaseBench, switchedRun.attempts⟩
      { switched with hub := switchedRun.hub } :=
  .operate ..

/-- When the switch is released, the board still lists the relay, in the same slot. -/
theorem tried_releaseBench :
    ∃ e ∈ switched.hub.tried true switchedRun.attempts, e.2.sent = true ∧ e.2.place = none ∧
      ∃ q ∈ e.1.places.values, q.name ≠ "bench" ∧ ∃ x ∈ q.held,
        x.path.slot = e.2.handle.path.slot ∧ ¬ e.1.Stray x ∧ ¬ e.1.Stray e.2.handle := by
  have hany : (switched.hub.tried true switchedRun.attempts).any (fun e =>
      e.2.sent && e.2.place.isNone && e.1.published.contains e.2.handle &&
        e.1.places.values.any (fun q => q.name != "bench" && q.held.any (fun x =>
          x.path.slot == e.2.handle.path.slot && e.1.isOrphaned x))) = true := by
    decide +kernel
  obtain ⟨e, he, hcond⟩ := List.any_eq_true.mp hany
  simp only [Bool.and_eq_true, Option.isNone_iff_eq_none, List.contains_iff_mem] at hcond
  obtain ⟨⟨⟨hsent, hplace⟩, hpublished⟩, hplaces⟩ := hcond
  obtain ⟨q, hq, hq'⟩ := List.any_eq_true.mp hplaces
  simp only [Bool.and_eq_true, bne_iff_ne] at hq'
  obtain ⟨x, hx, hx'⟩ := List.any_eq_true.mp hq'.2
  simp only [Bool.and_eq_true, beq_iff_eq] at hx'
  refine ⟨e, he, hsent, hplace, q, hq, hq'.1, x, hx, hx'.1, ?_, ?_⟩
  · rintro ⟨_, hflag⟩
    rw [hx'.2] at hflag
    cases hflag
  · exact fun hgone => hgone.1 hpublished

/-- Then the relay of the board is an orphan of another class, and is published no more. -/
theorem release_scope_switch :
    ∃ e ∈ switched.hub.tried true switchedRun.attempts, e.2.place = none ∧
      ∃ q ∈ e.1.places.values, q.name ≠ "bench" ∧ ∃ x ∈ q.held,
        x.path.slot = e.2.handle.path.slot ∧ x.path ≠ e.2.handle.path ∧
          e.1.isOrphaned x = true ∧ x ∉ e.1.published := by
  have hstart : Station.start ⟨1000, 1000⟩ none = .ok empty := rfl
  have hsync : ∀ readings, releaseBench ≠ .synchronize readings := fun _ he => by cases he
  obtain ⟨e, he, _, hplace, q, hq, hname, x, hx, hslot, hstray, hstray'⟩ := tried_releaseBench
  obtain ⟨name, htarget, hothers⟩ := Course.release_scope hstart (course_play empty switchScenes)
    step_releaseBench rfl hsync he hplace
  cases htarget
  obtain ⟨hpath, horphan⟩ := hothers q hq hname x hx
  exact ⟨e, he, hplace, q, hq, hname, x, hx, hslot, hpath, horphan hslot hstray hstray'⟩

/-- A command to free the slot is sent although another place lists a resource in it. -/
theorem slot_released :
    Course empty (empty.play switchScenes).1 switched ∧
      Step switched ⟨12, some releaseBench, switchedRun.attempts⟩
        { switched with hub := switchedRun.hub } ∧
      ∃ e ∈ switched.hub.tried true switchedRun.attempts, e.2.sent = true ∧ e.2.place = none ∧
        ∃ q ∈ e.1.places.values, q.name ≠ "bench" ∧ ∃ x ∈ q.held,
          x.path.slot = e.2.handle.path.slot := by
  obtain ⟨e, he, hsent, hplace, q, hq, hname, x, hx, hslot, _, _⟩ := tried_releaseBench
  exact ⟨course_play empty switchScenes, step_releaseBench, e, he, hsent, hplace, q, hq, hname,
    x, hx, hslot⟩

end Station

end BoardFarm
