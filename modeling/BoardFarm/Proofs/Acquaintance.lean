import BoardFarm.Proofs.ExporterReports
import BoardFarm.Proofs.PublishedResources

/-!
# What a hub knows of an exporter

As long as an exporter announces itself, part of its equipment is published and the rest is
announced by reports that are still to be read. What is published is noted as the exporter has it.

* `Acquainted`: a session, the records, the exporter and the reports to be read fit together.
* `acquainted_register`, `Acquainted.publish`, `Acquainted.update`: registration, a report of
  something new, and a report of a new holder.
-/

namespace BoardFarm

/-- What is published of an exporter is noted as the exporter has it. The rest is announced. -/
structure Acquainted (records : SortedMap Nat ResourceRecord) (s : ExporterSession) (e : Exporter)
    (rest : List ResourceReport) : Prop where
  name : s.name = e.name
  published : ∀ ⦃group name : String⦄ ⦃h : Handle⦄, s.find? group name = some h →
    ∃ x, e.find? group name = some x ∧ h.path = x.path e.name group name ∧
      records.get? h.serial = some x.record
  awaited : ∀ r, r ∈ rest ↔ ∃ group name x, e.find? group name = some x ∧
    s.find? group name = none ∧ r = Exporter.report group name x
  once : (rest.map ResourceReport.address).Nodup

variable {records records' : SortedMap Nat ResourceRecord} {s : ExporterSession} {e : Exporter}
  {r : ResourceReport} {rest : List ResourceReport} {group name : String}

theorem ExporterSession.find?_empty (exporter version group name : String) :
    (⟨exporter, version, SortedMap.empty⟩ : ExporterSession).find? group name = none := rfl

/-- When an exporter is registered, everything is still to be read. -/
theorem acquainted_register (records : SortedMap Nat ResourceRecord) (e : Exporter)
    (version : String) : Acquainted records ⟨e.name, version, SortedMap.empty⟩ e e.reports := by
  refine ⟨rfl, ?_, ?_, e.nodup_reports⟩
  · intro group name h hh
    rw [ExporterSession.find?_empty] at hh
    cases hh
  · intro r
    rw [Exporter.mem_reports_iff]
    constructor
    · rintro ⟨group, name, x, hx, rfl⟩
      exact ⟨group, name, x, hx, ExporterSession.find?_empty .., rfl⟩
    · rintro ⟨group, name, x, hx, _, rfl⟩
      exact ⟨group, name, x, hx, rfl⟩

theorem Acquainted.frame (h : Acquainted records s e rest)
    (hsame : ∀ ⦃group name : String⦄ ⦃x : Handle⦄, s.find? group name = some x →
      records'.get? x.serial = records.get? x.serial) : Acquainted records' s e rest := by
  refine ⟨h.name, ?_, h.awaited, h.once⟩
  intro group name y hy
  rw [hsame hy]
  exact h.published hy

/-- The first report to be read is about something that is not published yet. -/
theorem Acquainted.head (h : Acquainted records s e (r :: rest)) :
    ∃ group name x, e.find? group name = some x ∧ s.find? group name = none ∧
      r = Exporter.report group name x :=
  (h.awaited r).mp (List.mem_cons_self ..)

/-- A new handle is filed for the first report to be read. -/
theorem Acquainted.publish {x : Exported} {h : Handle}
    (ha : Acquainted records s e (Exporter.report group name x :: rest))
    (hx : e.find? group name = some x) (hpath : h.path = x.path e.name group name)
    (hrecord : records'.get? h.serial = some x.record)
    (hothers : ∀ ⦃group name : String⦄ ⦃y : Handle⦄, s.find? group name = some y →
      records'.get? y.serial = records.get? y.serial) :
    Acquainted records' (s.file group name h) e rest := by
  have hfind := s.find?_file group name
  obtain ⟨hnew, honce⟩ := List.nodup_cons.mp ha.once
  refine ⟨ha.name, ?_, ?_, honce⟩
  · intro group' name' y hy
    rw [hfind] at hy
    split at hy
    · rename_i he
      obtain ⟨rfl, rfl⟩ := he
      cases hy
      exact ⟨x, hx, hpath, hrecord⟩
    · obtain ⟨y', hy', hpath', hrecord'⟩ := ha.published hy
      exact ⟨y', hy', hpath', (hothers hy).trans hrecord'⟩
  · intro r
    constructor
    · intro hr
      obtain ⟨group', name', x', hx', hnone, rfl⟩ := (ha.awaited r).mp (List.mem_cons_of_mem _ hr)
      refine ⟨group', name', x', hx', ?_, rfl⟩
      rw [hfind, if_neg]
      · exact hnone
      · -- a report of the same resource would be read twice
        rintro ⟨rfl, rfl⟩
        exact hnew (List.mem_map.mpr ⟨_, hr, rfl⟩)
    · rintro ⟨group', name', x', hx', hnone, rfl⟩
      rw [hfind] at hnone
      split at hnone
      · cases hnone
      · rename_i hne
        rcases List.mem_cons.mp ((ha.awaited _).mpr ⟨group', name', x', hx', hnone, rfl⟩) with
          he | hold
        · have haddress := congrArg ResourceReport.address he
          obtain ⟨rfl, rfl⟩ := Prod.mk.inj (Option.some.inj haddress)
          exact absurd ⟨rfl, rfl⟩ hne
        · exact hold

/-- The record of a handle follows a change of the holder. -/
theorem Acquainted.update {x : Exported} {h : Handle} (ha : Acquainted records s e rest)
    (hx : e.find? group name = some x) (hh : s.find? group name = some h) (place : Option String)
    (hrecord : records'.get? h.serial = some { x with holder := place }.record)
    (hothers : ∀ ⦃group' name' : String⦄ ⦃y : Handle⦄, s.find? group' name' = some y →
      ¬ (group = group' ∧ name = name') → records'.get? y.serial = records.get? y.serial) :
    Acquainted records' s (e.withHolder group name place) rest := by
  have hfind := e.find?_withHolder group name place
  refine ⟨ha.name, ?_, ?_, ha.once⟩
  · intro group' name' y hy
    rw [hfind]
    split
    · rename_i he
      obtain ⟨rfl, rfl⟩ := he
      rw [hh] at hy
      cases hy
      obtain ⟨x', hx', hpath, _⟩ := ha.published hh
      rw [hx] at hx'
      cases hx'
      exact ⟨{ x with holder := place }, by rw [hx]; rfl, hpath, hrecord⟩
    · rename_i hne
      obtain ⟨y', hy', hpath, hrecord'⟩ := ha.published hy
      exact ⟨y', hy', hpath, (hothers hy hne).trans hrecord'⟩
  · intro r
    rw [ha.awaited]
    -- what is still to be read is about other resources
    have hsame : ∀ group' name', s.find? group' name' = none →
        (e.withHolder group name place).find? group' name' = e.find? group' name' := by
      intro group' name' hnone
      rw [hfind, if_neg]
      rintro ⟨rfl, rfl⟩
      rw [hh] at hnone
      cases hnone
    constructor
    · rintro ⟨group', name', x', hx', hnone, rfl⟩
      exact ⟨group', name', x', (hsame _ _ hnone).trans hx', hnone, rfl⟩
    · rintro ⟨group', name', x', hx', hnone, rfl⟩
      exact ⟨group', name', x', (hsame _ _ hnone).symm.trans hx', hnone, rfl⟩

end BoardFarm
