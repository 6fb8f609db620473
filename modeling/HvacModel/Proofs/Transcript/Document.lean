import HvacModel.Proofs.Reading.Document
import HvacModel.Proofs.Transcript.Schedules
import HvacModel.Proofs.Transcript.Systems

/-! # Reading keeps everything: documents

A document that is read from a raw value is a transcript of it (`Document.isTranscript_of_read`): no
reader drops an entry of an accepted value, changes its order or makes one up. -/

namespace HvacModel.Transcript

open Report Grammar Document Document.Read

variable {α : Type} {P : Value → Prop} {R : Value → α → Prop} {root : Fields}

/-- What is made of a section describes it. -/
theorem fieldOf_sectionIn {name : String} {read : Path → Value → Reading (Option α)} {a : α}
    (h : Has root name P) (hread : ∀ value, P value → Yields (read [.key name] value) (R value))
    (ha : (sectionIn root name read).value = some a) : FieldOf R root name a := by
  obtain ⟨value, hf, hp⟩ := h
  obtain ⟨b, hb, hr⟩ := hread value hp
  rw [sectionIn, hf, whenSome_some, hb, Option.some.injEq] at ha
  exact ⟨value, hf, ha ▸ hr⟩

theorem fieldOr_measuresSection {measures : List Measure}
    (h : MayHave root "measures" (IsTable IsMeasure))
    (hm : (measuresSection root).value = some measures) :
    FieldOr [] (TableOf MeasureOf) root "measures" measures := by
  unfold FieldOr
  cases hf : Value.field? root "measures" with
  | none =>
      rw [measuresSection, hf] at hm
      cases hm
      rfl
  | some value =>
      rw [measuresSection, if_pos (by rw [hf]; rfl)] at hm
      obtain ⟨found, hfound, hof⟩ := fieldOf_sectionIn ⟨value, hf, h value hf⟩
        (fun _ hv => yields_table _ hv fun _ => yields_measure _) hm
      rw [hf, Option.some.injEq] at hfound
      exact hfound ▸ hof

/-! ### Tables of a document that is read -/

variable {d : Document}

theorem measures_of_read (h : Document.read (.object root) = .ok d) :
    FieldOr [] (TableOf MeasureOf) root "measures" d.measures := by
  obtain ⟨_, ⟨⟩, ⟨_, ⟨⟩, -, hm, -⟩, hfrom⟩ := isReadFrom_of_read h
  exact fieldOr_measuresSection hm hfrom.measures

theorem components_of_read (h : Document.read (.object root) = .ok d) :
    FieldOf (TableOf ComponentOf) root "hvac_components" d.components := by
  obtain ⟨_, ⟨⟩, ⟨_, ⟨⟩, -, -, -, hc, -⟩, hfrom⟩ := isReadFrom_of_read h
  exact fieldOf_sectionIn hc (fun _ => yields_components _) hfrom.components

theorem schedules_of_read (h : Document.read (.object root) = .ok d) :
    FieldOf (TableOf ScheduleOf) root "schedules" d.schedules := by
  obtain ⟨_, ⟨⟩, ⟨_, ⟨⟩, -, -, -, -, hd, -⟩, hfrom⟩ := isReadFrom_of_read h
  exact fieldOf_sectionIn hd (fun _ hv => yields_table _ hv fun _ => yields_schedule _)
    hfrom.schedules

end HvacModel.Transcript

namespace HvacModel

open Transcript Grammar

/-- A document that is read holds all of the raw value and nothing else. -/
theorem Document.isTranscript_of_read (v : Value) (d : Document)
    (h : Document.read v = .ok d) : Transcript.DocumentOf v d := by
  obtain ⟨root, rfl, hdocument, hfrom⟩ := isReadFrom_of_read h
  obtain ⟨_, ⟨⟩, -, hm, hs, hc, hd, hcs, hst, hr, hb⟩ := hdocument
  refine ⟨root, rfl, ?_⟩
  constructor
  · exact fieldOr_measuresSection hm hfrom.measures
  · exact fieldOf_sectionIn hs (fun _ hv => yields_table _ hv fun _ => yields_system _)
      hfrom.systems
  · exact fieldOf_sectionIn hc (fun _ => yields_components _) hfrom.components
  · exact fieldOf_sectionIn hd (fun _ hv => yields_table _ hv fun _ => yields_schedule _)
      hfrom.schedules
  · exact fieldOf_sectionIn hcs (fun _ hv => yields_table _ hv fun _ => yields_constructionSet _)
      hfrom.constructionSets
  · exact fieldOf_sectionIn hst (fun _ hv => yields_table _ hv fun _ => yields_spaceType _)
      hfrom.spaceTypes
  · exact fieldOf_sectionIn hr (fun _ => yields_runInfo _) hfrom.runInfo
  · exact fieldOf_sectionIn hb (fun _ => yields_buildingInfo _) hfrom.buildingInfo

/-- A clinic with a box that owns a coil, and with days at all three kinds of places. -/
def clinic : Value :=
  .object
    ([("hvac", airSystem [] (.array [.string "coil", .string "fan"])),
      ("hvac_components", .object
        [("box", .object [("idd_object_type", .string "AirTerminalSingleDuctVAVReheat"),
            ("sub_components", .object [("reheat", .object
              [("idd_object_type", .string "CoilHeatingWater")])])])]),
      ("schedules", .object [("hours", .object
        [("schedule_rules", .object
            [("monday", .object [("apply_monday", .bool true), ("day_schedule", constantDay 0)]),
              ("friday", .object
                [("apply_friday", .bool true), ("day_schedule", .string "short")]),
              ("sunday", .object [("apply_sunday", .bool true), ("day_schedule", constantDay 0)])]),
          ("day_schedules", .object [("short", constantDay 0)]),
          ("winter_design_day", constantDay 0), ("default_day", constantDay 0)])])] ++
      buildingSections "Clinic" "vav" [] [("floors", .number (.int 2))])

/-- The days of the clinic stand in their order, wherever the fields are written, and every
position is that of its day. -/
theorem clinic_isTranscript :
    ∃ d, Document.read clinic = .ok d ∧ Transcript.DocumentOf clinic d ∧
      d.schedules.map (fun s => s.days.map DayProfile.key) =
        [["default_day", "winter_design_day", "short", "monday.day_schedule",
          "sunday.day_schedule"]] ∧
      d.schedules.map (fun s => (s.defaultDay, s.summerDesignDay, s.winterDesignDay)) =
        [(some 0, none, some 1)] ∧
      d.schedules.map (fun s => s.rules.map Document.Rule.day) =
        [[.inline 3, .named "short", .inline 4]] := by
  obtain ⟨d, hd⟩ : ∃ d, Document.read clinic = .ok d := ⟨_, rfl⟩
  refine ⟨d, hd, Document.isTranscript_of_read clinic d hd, ?_⟩
  cases hd
  exact ⟨rfl, rfl, rfl⟩

end HvacModel
