import HvacModel.Proofs.Decimal.Integers
import HvacModel.Proofs.Model.Compile
import HvacModel.Proofs.Transcript.Document

/-! # What is passed through

The geometry of the building and the additional settings of the run are passed through to the model:
it holds exactly the keys that are not structural, and flags, texts and doubles as they are written
(`Value.passedThrough_of_compile`).  An integer becomes the nearest double, so its value is kept
exactly where it fits the significand of one. -/

namespace HvacModel.Transcript

/-- What a raw scalar is passed on as: itself, or for an integer of 64 bits, with or without sign,
the nearest double. -/
def ScalarOf : Value → AttributeValue → Prop
  | .bool b, value => value = .flag b
  | .string s, value => value = .text s
  | .number (.float x), value => value = .number x
  | .number (.int i), value =>
    ∃ x, value = .number x ∧ (-2 ^ 63 ≤ i → i < 2 ^ 64 → Decimal.NearestTo i x)
  | _, _ => False

/-- The attributes of an object that are passed through: exactly the keys that are not structural,
each with what the value there is passed on as. -/
structure PassedThrough (structural : List String) (fields : Grammar.Fields) (bag : Attributes) :
    Prop where
  keys : ∀ key, (bag.find? key).isSome ↔ key ∉ structural ∧ ∃ raw, (key, raw) ∈ fields
  values : ∀ key value, bag.find? key = some value → ∃ raw, (key, raw) ∈ fields ∧ ScalarOf raw value

theorem scalarOf_of_ofValue? {raw : Value} {value : AttributeValue}
    (h : AttributeValue.ofValue? raw = some value) : ScalarOf raw value := by
  cases raw with
  | bool b => exact (Option.some.inj h).symm
  | string s => exact (Option.some.inj h).symm
  | number n =>
      cases n with
      | float x => exact (Option.some.inj h).symm
      | int i =>
          refine ⟨Decimal.ofInt i, (Option.some.inj h).symm, fun hmin hmax => ?_⟩
          have hsmall : i.natAbs < 2 ^ 65 := by omega
          exact Decimal.nearestTo_ofInt (hsmall.trans_le (pow_le_pow_right₀ one_le_two (by omega)))
  | null => cases h
  | array items => cases h
  | object fields => cases h

theorem BagOf.passedThrough {structural : List String} {fields : Grammar.Fields} {bag : Attributes}
    (h : BagOf structural fields bag) : PassedThrough structural fields bag where
  keys := h.keys
  values key value hv := by
    obtain ⟨raw, hmem, hof⟩ := h.values key value hv
    exact ⟨raw, hmem, scalarOf_of_ofValue? hof⟩

end HvacModel.Transcript

namespace HvacModel

open Transcript

/-- A model holds the additional entries of the building and of the run that it is compiled from:
their keys are those of the raw objects but for the structural ones, and their values are passed on
as they are, integers rounded to the nearest double. -/
theorem Value.passedThrough_of_compile (v : Value) (stages : List (List MeasureCategory))
    (c : Compiled) (h : v.compile stages = .ok c) :
    ∃ building run, v.at? [.key "building_info"] = some (.object building) ∧
      v.at? [.key "run_info"] = some (.object run) ∧
      PassedThrough ["space_type", "construction_set", "hvac_system"] building
        c.model.building.geometry ∧
      PassedThrough ["uuid", "output_location", "temp_sim_location", "simulation_year", "timestep"]
        run c.model.runInfo.extra := by
  obtain ⟨d, hread, hcompile⟩ := (Value.compile_eq_ok_iff v stages c).mp h
  obtain ⟨skeleton, applied, schedules, -, rfl⟩ :=
    (Document.compile_eq_ok_iff d stages c).mp hcompile
  obtain ⟨root, rfl, hsections⟩ := Document.isTranscript_of_read v d hread
  obtain ⟨_, hbuilding, building, rfl, hgeometry⟩ := hsections.buildingInfo
  obtain ⟨_, hrun, run, rfl, hextra⟩ := hsections.runInfo
  refine ⟨building, run, ?_, ?_, hgeometry.geometry.passedThrough, hextra.extra.passedThrough⟩
  · rw [Document.Read.at?_key, hbuilding]
  · rw [Document.Read.at?_key, hrun]

/-- A warehouse whose serial number is the least integer that is no double, and a run with the
greatest seed of 64 bits. -/
def warehouse : Value :=
  Grammar.passiveBuilding "Warehouse" []
    [("seed", .number (.int 18446744073709551615)), ("draft", .bool true)]
    [("serial", .number (.int 9007199254740993)), ("owner", .string "north")]

/-- The serial number and the seed of the warehouse change their values. -/
theorem passedThrough_warehouse :
    ∃ c building run, warehouse.compile Measure.defaultStages = .ok c ∧
      warehouse.at? [.key "building_info"] = some (.object building) ∧
      warehouse.at? [.key "run_info"] = some (.object run) ∧
      PassedThrough ["space_type", "construction_set", "hvac_system"] building
        c.model.building.geometry ∧
      PassedThrough ["uuid", "output_location", "temp_sim_location", "simulation_year", "timestep"]
        run c.model.runInfo.extra ∧
      c.model.building.geometry.find? "owner" = some (.text "north") ∧
      c.model.runInfo.extra.find? "draft" = some (.flag true) ∧
      (∃ x, c.model.building.geometry.find? "serial" = some (.number x) ∧
        Decimal.toRat x = 9007199254740992) ∧
      ∃ x, c.model.runInfo.extra.find? "seed" = some (.number x) ∧
        Decimal.toRat x = 18446744073709551616 := by
  obtain ⟨c, hc⟩ : ∃ c, warehouse.compile Measure.defaultStages = .ok c := ⟨_, rfl⟩
  obtain ⟨building, run, hbuilding, hrun, hgeometry, hextra⟩ :=
    Value.passedThrough_of_compile warehouse Measure.defaultStages c hc
  refine ⟨c, building, run, hc, hbuilding, hrun, hgeometry, hextra, ?_⟩
  cases hc
  refine ⟨rfl, rfl, ⟨Decimal.ofInt 9007199254740993, rfl, ?_⟩,
    ⟨Decimal.ofInt 18446744073709551615, rfl, ?_⟩⟩
  · have hsame : Decimal.ofInt 9007199254740993 = Decimal.ofInt 9007199254740992 := by decide
    have hpower := Decimal.toRat_ofInt_two_pow (e := 53) (by decide)
    norm_num at hpower
    rw [hsame, hpower]
  · have hsame : Decimal.ofInt 18446744073709551615 = Decimal.ofInt 18446744073709551616 := by
      decide
    have hpower := Decimal.toRat_ofInt_two_pow (e := 64) (by decide)
    norm_num at hpower
    rw [hsame, hpower]

end HvacModel
