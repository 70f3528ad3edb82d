import BoardFarm.Exporter
import Mathlib.Data.List.Nodup

/-!
# What exporters report

An exporter reports each piece of its equipment under its group and name. What the hub notes of
such a report is the equipment and its holder, and nothing is lost on the way.

* `Exported.record`: what is noted of a report.
* `Exporter.mem_reports_iff`: an exporter reports just what it publishes.
* `Exporter.serve_done`: the answer to a command that is carried out.
-/

namespace BoardFarm

/-- What is known of a resource whose exporter has reported it. -/
def Exported.record (x : Exported) : ResourceRecord :=
  ⟨x.equipment.cls.name, x.equipment.params, true, x.holder, false⟩

/-- The path of a resource that is published by the exporter of a name. -/
def Exported.path (x : Exported) (exporter group name : String) : ResourcePath :=
  ⟨exporter, group, x.equipment.cls.name, name⟩

theorem EquipmentClass.name_ne_empty (c : EquipmentClass) : c.name.isEmpty = false := by
  cases c <;> decide

/-- Every parameter that has a value is known. -/
theorem knownParams_mapValues (m : SortedMap String ParamValue) :
    knownParams (m.mapValues (fun _ v => some v)) = m := by
  have hentries : (m.mapValues (fun _ v => some v)).toList.filterMap
      (fun e => e.2.map (fun v => (e.1, v))) = m.toList := by
    show (m.toList.map (fun e => (e.1, some e.2))).filterMap _ = m.toList
    rw [List.filterMap_map]
    exact List.filterMap_some
  apply SortedMap.ext_get?
  intro k
  unfold knownParams
  rw [hentries]
  ext v
  rw [SortedMap.get?_ofList_iff, SortedMap.mem_toList_iff]
  intro k v w hv hw
  rw [SortedMap.mem_toList_iff] at hv hw
  rw [hv] at hw
  exact Option.some.inj hw

/-- The place that a command makes the holder; the empty place stands for none. -/
def Command.holder (c : Command) : Option String := c.place.filter (fun p => !p.isEmpty)

theorem Command.holder_of_ne {c : Command} (h : c.place ≠ some "") : c.holder = c.place := by
  unfold holder
  cases hp : c.place with
  | none => rfl
  | some place =>
    have hne : place ≠ "" := fun he => h (by rw [hp, he])
    simp [hne]

namespace Exporter

variable {e : Exporter} {group name : String} {x : Exported}

theorem find?_new (exporter : String) (inventory : Inventory) (group name : String) :
    (new exporter inventory).find? group name =
      ((inventory.get? group).bind (fun named => named.get? name)).map (fun e => ⟨e, none⟩) := by
  unfold find? new
  dsimp only
  rw [SortedMap.get?_mapValues]
  cases inventory.get? group with
  | none => rfl
  | some named => exact SortedMap.get?_mapValues ..

theorem find?_withHolder (e : Exporter) (group name : String) (holder : Option String)
    (group' name' : String) : (e.withHolder group name holder).find? group' name' =
      if group = group' ∧ name = name' then
        (e.find? group' name').map (fun x => { x with holder := holder })
      else e.find? group' name' := by
  unfold find? withHolder
  dsimp only
  rw [SortedMap.get?_modify]
  by_cases hg : group = group'
  · cases e.groups.get? group' with
    | none => simp
    | some named =>
      simp only [hg, if_true, Option.map_some, Option.bind_some, true_and]
      exact SortedMap.get?_modify ..
  · simp [hg]

/-! ## Reports -/

/-- What is noted of a report, unless the holder has no name. -/
theorem ofReport_report (group name : String) (hholder : x.holder ≠ some "") :
    ResourceRecord.ofReport (report group name x) = x.record := by
  have hacquired : (if (x.holder.getD "").isEmpty then none else some (x.holder.getD "")) =
      x.holder := by
    cases hx : x.holder with
    | none => rfl
    | some place =>
      have hne : place ≠ "" := fun he => hholder (by rw [hx, he])
      have hfull : place.isEmpty = false := by simpa using hne
      simp [hfull]
  unfold ResourceRecord.ofReport report Exported.record
  dsimp only
  rw [knownParams_mapValues, hacquired]

theorem mem_reports_iff {r : ResourceReport} :
    r ∈ e.reports ↔ ∃ group name x, e.find? group name = some x ∧ r = report group name x := by
  unfold reports groupReports find?
  rw [List.mem_flatMap]
  constructor
  · rintro ⟨⟨group, named⟩, hg, hr⟩
    obtain ⟨⟨name, x⟩, hx, rfl⟩ := List.mem_map.mp hr
    refine ⟨group, name, x, ?_, rfl⟩
    rw [SortedMap.mem_toList_iff.mp hg]
    exact SortedMap.mem_toList_iff.mp hx
  · rintro ⟨group, name, x, hfind, rfl⟩
    obtain ⟨named, hg, hx⟩ := Option.bind_eq_some_iff.mp hfind
    exact ⟨(group, named), SortedMap.mem_toList_iff.mpr hg,
      List.mem_map.mpr ⟨(name, x), SortedMap.mem_toList_iff.mpr hx, rfl⟩⟩

/-- No resource is reported twice. -/
theorem nodup_reports (e : Exporter) : (e.reports.map ResourceReport.address).Nodup := by
  have hflat : e.reports.map ResourceReport.address =
      e.groups.toList.flatMap (fun g => g.2.keys.map (fun name => some (g.1, name))) := by
    unfold reports groupReports SortedMap.keys
    rw [List.map_flatMap]
    simp only [List.map_map]
    rfl
  rw [hflat, List.nodup_flatMap]
  constructor
  · rintro ⟨group, named⟩ _
    refine named.keys_nodup.map ?_
    intro name name' he
    exact (Prod.mk.inj (Option.some.inj he)).2
  · refine e.groups.sorted.imp ?_
    intro g g' hlt address hg hg'
    obtain ⟨name, _, rfl⟩ := List.mem_map.mp hg
    obtain ⟨name', _, he⟩ := List.mem_map.mp hg'
    exact KeyOrder.ne_of_lt hlt (Prod.mk.inj (Option.some.inj he)).1.symm

/-! ## Commands -/

/-- A command that is carried out is answered by a report and a confirmation. -/
theorem serve_done {c : Command} (hx : e.find? c.group c.name = some x)
    (hmay : mayChange x.holder c.holder = true) :
    e.serve c = ([.resource (report c.group c.name { x with holder := c.holder }),
      .response .done], e.withHolder c.group c.name c.holder) := by
  have hset : e.setHolder c.group c.name c.holder =
      .ok (e.withHolder c.group c.name c.holder) := by
    unfold setHolder
    rw [hx]
    exact if_pos hmay
  have hfound : (e.withHolder c.group c.name c.holder).find? c.group c.name =
      some { x with holder := c.holder } := by
    rw [find?_withHolder, if_pos ⟨rfl, rfl⟩, hx]
    rfl
  unfold serve
  rw [← Command.holder, hset]
  dsimp only
  rw [hfound]
  rfl

theorem serve_of_mayChange {c : Command} (hx : e.find? c.group c.name = some x)
    (hmay : mayChange x.holder c.place = true) (hplace : c.place ≠ some "") :
    e.serve c = ([.resource (report c.group c.name { x with holder := c.place }),
      .response .done], e.withHolder c.group c.name c.place) := by
  rw [← Command.holder_of_ne hplace] at hmay ⊢
  exact serve_done hx hmay

end Exporter

end BoardFarm
