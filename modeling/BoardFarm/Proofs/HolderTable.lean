import BoardFarm.Proofs.ExporterReports

/-!
# The holders that an exporter keeps

Every command is answered once. One that is carried out changes the holder of its resource,
which is reported in front of the confirmation; one that is refused changes nothing. So a
resource passes from one place to another only by way of a release.

* `Exporter.Turn`: what serving a command comes to.
* `Exporter.turn`: every command is served in one of these ways.
* `Exporter.holder_table`: the answers, the holders and the reports over a row of commands.
-/

namespace BoardFarm

namespace Exporter

/-- The exporter behind a row of commands. -/
def after (e : Exporter) (cs : List Command) : Exporter := cs.foldl (fun e c => (e.serve c).2) e

/-- What serving a command comes to: the messages that answer it, and the exporter behind it. -/
inductive Turn (e : Exporter) (c : Command) : List ExporterMessage → Exporter → Prop where
  | done {x : Exported} {e' : Exporter} (known : e.find? c.group c.name = some x)
      (free : c.holder = none ∨ x.holder = none ∨ x.holder = c.holder)
      (changed : e'.find? c.group c.name = some { x with holder := c.holder })
      (others : ∀ group name, ¬ (group = c.group ∧ name = c.name) →
        e'.find? group name = e.find? group name)
      (title : e'.name = e.name) :
      Turn e c [.resource (report c.group c.name { x with holder := c.holder }),
        .response .done] e'
  | unknown (absent : e.find? c.group c.name = none) :
      Turn e c [.response (.refused (HolderError.unknownResource c.group c.name).message)] e
  | held {x : Exported} {holder place : String} (known : e.find? c.group c.name = some x)
      (taken : x.holder = some holder) (wanted : c.holder = some place) (other : holder ≠ place) :
      Turn e c [.response (.refused (HolderError.held c.group c.name holder).message)] e

variable {e e' : Exporter} {c : Command} {messages : List ExporterMessage} {group name : String}

theorem mayChange_iff {old new : Option String} :
    mayChange old new = true ↔ new = none ∨ old = none ∨ old = new := by
  cases old with
  | none => simp [mayChange]
  | some holder =>
    cases new with
    | none => simp [mayChange]
    | some place => simp [mayChange]

/-- Every command is served in one of these ways. -/
theorem turn (e : Exporter) (c : Command) : Turn e c (e.serve c).1 (e.serve c).2 := by
  cases hx : e.find? c.group c.name with
  | none =>
    have hserve : e.serve c =
        ([.response (.refused (HolderError.unknownResource c.group c.name).message)], e) := by
      simp only [serve, setHolder, hx]
    rw [hserve]
    exact .unknown hx
  | some x =>
    by_cases hmay : mayChange x.holder c.holder = true
    · rw [serve_done hx hmay]
      refine .done hx (mayChange_iff.mp hmay) ?_ ?_ rfl
      · rw [find?_withHolder, if_pos ⟨rfl, rfl⟩, hx]
        rfl
      · intro group name hne
        rw [find?_withHolder, if_neg (fun h => hne ⟨h.1.symm, h.2.symm⟩)]
    · obtain ⟨hwanted, htaken, hother⟩ : c.holder ≠ none ∧ x.holder ≠ none ∧
          x.holder ≠ c.holder := by
        rw [mayChange_iff] at hmay
        exact ⟨fun h => hmay (.inl h), fun h => hmay (.inr (.inl h)),
          fun h => hmay (.inr (.inr h))⟩
      obtain ⟨place, hplace⟩ := Option.ne_none_iff_exists'.mp hwanted
      obtain ⟨holder, hholder⟩ := Option.ne_none_iff_exists'.mp htaken
      have hset : e.setHolder c.group c.name c.holder = .error (.held c.group c.name holder) := by
        unfold setHolder
        rw [hx]
        dsimp only
        rw [if_neg hmay, hholder]
        rfl
      have hserve : e.serve c =
          ([.response (.refused (HolderError.held c.group c.name holder).message)], e) := by
        unfold serve
        rw [← Command.holder, hset]
      rw [hserve]
      refine .held hx hholder hplace ?_
      rintro rfl
      exact hother (hholder.trans hplace.symm)

/-! ## One command -/

theorem Turn.name_eq (h : Turn e c messages e') : e'.name = e.name := by
  cases h with
  | done known free changed others title => exact title
  | unknown | held => rfl

/-- No command changes what is published. -/
theorem Turn.equipment (h : Turn e c messages e') (group name : String) :
    (e'.find? group name).map (·.equipment) = (e.find? group name).map (·.equipment) := by
  cases h with
  | @done x _ known free changed others title =>
    by_cases hsame : group = c.group ∧ name = c.name
    · obtain ⟨rfl, rfl⟩ := hsame
      rw [changed, known]
      rfl
    · rw [others group name hsame]
  | unknown | held => rfl

/-- A place keeps a resource until a command frees it. -/
theorem Turn.keeps_or_frees {place : String} (h : Turn e c messages e')
    (hholder : e.holder? group name = some place) :
    e'.holder? group name = some place ∨
      (e'.holder? group name = none ∧ c.group = group ∧ c.name = name ∧ c.holder = none ∧
        .response .done ∈ messages) := by
  cases h with
  | @done x _ known free changed others title =>
    unfold holder? at hholder ⊢
    by_cases hsame : group = c.group ∧ name = c.name
    · obtain ⟨rfl, rfl⟩ := hsame
      rw [known] at hholder
      have hx : x.holder = some place := hholder
      rw [changed]
      rcases free with hnone | hfree | heq
      · exact .inr ⟨hnone, rfl, rfl, hnone, by simp⟩
      · rw [hx] at hfree
        cases hfree
      · exact .inl (heq.symm.trans hx)
    · rw [others group name hsame]
      exact .inl hholder
  | unknown | held => exact .inl hholder

/-! ## Rows of commands -/

theorem name_after (e : Exporter) (cs : List Command) : (e.after cs).name = e.name := by
  induction cs generalizing e with
  | nil => rfl
  | cons c cs ih => exact (ih (e.serve c).2).trans (e.turn c).name_eq

theorem equipment_after (e : Exporter) (cs : List Command) (group name : String) :
    ((e.after cs).find? group name).map (·.equipment) =
      (e.find? group name).map (·.equipment) := by
  induction cs generalizing e with
  | nil => rfl
  | cons c cs ih => exact (ih (e.serve c).2).trans ((e.turn c).equipment group name)

/-- Between two holders of a resource there is a release that has been carried out. -/
theorem exists_release {p q : String} {cs : List Command} (hp : e.holder? group name = some p)
    (hq : (e.after cs).holder? group name = some q) (hne : p ≠ q) :
    ∃ front c back, cs = front ++ c :: back ∧ c.group = group ∧ c.name = name ∧
      c.holder = none ∧ .response .done ∈ ((e.after front).serve c).1 := by
  induction cs generalizing e with
  | nil =>
    have hpq : some p = some q := hp.symm.trans hq
    exact absurd (Option.some.inj hpq) hne
  | cons c cs ih =>
    rcases (e.turn c).keeps_or_frees hp with hkeeps | ⟨-, hgroup, hname, hholder, hdone⟩
    · obtain ⟨front, c', back, rfl, hrelease⟩ := ih hkeeps hq
      exact ⟨c :: front, c', back, rfl, hrelease⟩
    · exact ⟨[], c, cs, rfl, hgroup, hname, hholder, hdone⟩

/-- Over a row of commands each is answered once, a resource passes on only by way of a release,
and what is published stays, to be announced with its present holders. -/
theorem holder_table (e : Exporter) (cs : List Command) :
    (∀ front c back, cs = front ++ c :: back →
      Turn (e.after front) c ((e.after front).serve c).1 (e.after (front ++ [c]))) ∧
    (∀ group name p q, e.holder? group name = some p → (e.after cs).holder? group name = some q →
      p ≠ q → ∃ front c back, cs = front ++ c :: back ∧ c.group = group ∧ c.name = name ∧
        c.holder = none ∧ .response .done ∈ ((e.after front).serve c).1) ∧
    (∀ group name, ((e.after cs).find? group name).map (·.equipment) =
      (e.find? group name).map (·.equipment)) ∧
    ∀ version, ∃ reports : List ResourceReport, (e.after cs).announce version =
        .startup e.name version :: reports.map .resource ∧
      (reports.map ResourceReport.address).Nodup ∧
      ∀ r, r ∈ reports ↔ ∃ group name x, (e.after cs).find? group name = some x ∧
        r = report group name x := by
  refine ⟨?_, fun _ _ _ _ => exists_release, e.equipment_after cs, ?_⟩
  · intro front c back _
    have hstep : e.after (front ++ [c]) = ((e.after front).serve c).2 := List.foldl_concat ..
    rw [hstep]
    exact (e.after front).turn c
  · intro version
    refine ⟨(e.after cs).reports, ?_, (e.after cs).nodup_reports, fun _ => mem_reports_iff⟩
    rw [← e.name_after cs]
    rfl

/-- An exporter of one serial port, which `rpi` holds. -/
def serialBench : Exporter where
  name := "lab"
  groups := SortedMap.ofList [("1", SortedMap.ofList
    [("console", ⟨⟨.rawSerialPort, SortedMap.empty⟩, some "rpi"⟩)])]

/-- The port is wanted for another place, freed by the empty name of a place, and wanted again. -/
def handoverRow : List Command :=
  [⟨"1", "console", some "imx"⟩, ⟨"1", "console", some ""⟩, ⟨"1", "console", some "imx"⟩]

theorem holder_table_handover :
    serialBench.holder? "1" "console" = some "rpi" ∧
    (serialBench.after handoverRow).holder? "1" "console" = some "imx" ∧
    ∃ front c back, handoverRow = front ++ c :: back ∧ c.group = "1" ∧ c.name = "console" ∧
      c.holder = none ∧ .response .done ∈ ((serialBench.after front).serve c).1 := by
  have hstart : serialBench.holder? "1" "console" = some "rpi" := by decide
  have hend : (serialBench.after handoverRow).holder? "1" "console" = some "imx" := by decide
  obtain ⟨-, hrelease, -⟩ := holder_table serialBench handoverRow
  exact ⟨hstart, hend, hrelease _ _ _ _ hstart hend (by decide)⟩

end Exporter

end BoardFarm
