import Mathlib.Tactic.MkIffOfInductiveProp
import HvacModel.Proofs.Component.Subtree
import HvacModel.Proofs.RoundTrip.Basic

/-! # Serialized documents read back

The serialized form of a document reads as the document (`decode?_encode_iff`): it reads at
all exactly where its numbers are finite (`Document.Finite`), a double that is no number being
written as `null`, and where its positions and integers are in the ranges of their fields
(`Document.Sized`).  Each record has its own round trip, its fields read off one after the other;
components nest to any depth. -/

namespace HvacModel.Document

/-! ### Measures and systems -/

theorem Measure.roundTrips : RoundTrips encode decode? fun m => m.overrides.Finite where
  iff m n := by
    simp [encode, decode?, recordFields?, (roundTrips_member MeasureCategory.ofName?_name).bind,
      Attributes.roundTrips.bind]

theorem Branch.roundTrips : RoundTrips encode decode? fun _ => True where
  iff b c := by
    simp [encode, decode?, recordFields?, roundTrips_string.bind,
      (roundTrips_list roundTrips_string).bind]

theorem AirLoop.roundTrips : RoundTrips encode decode? fun _ => True where
  iff l k := by
    simp [encode, decode?, recordFields?, roundTrips_string.bind,
      (roundTrips_list roundTrips_string).bind, (roundTrips_list Branch.roundTrips).bind]

theorem PlantLoop.roundTrips : RoundTrips encode decode? fun _ => True where
  iff l k := by
    simp [encode, decode?, recordFields?, roundTrips_string.bind,
      (roundTrips_member LoopKind.ofName?_name).bind, (roundTrips_list roundTrips_string).bind]

/-- An absent availability schedule is not written, and reads as absent. -/
theorem System.roundTrips : RoundTrips encode decode? fun s => s.attributes.Finite where
  iff s t := by
    obtain ⟨name, airLoops, plantLoops, availability, attributes⟩ := s
    cases availability with
    | none =>
        simp [encode, decode?, recordFields?, roundTrips_string.bind,
          (roundTrips_list AirLoop.roundTrips).bind, (roundTrips_list PlantLoop.roundTrips).bind,
          Attributes.roundTrips.bind]
    | some key =>
        simp [encode, decode?, recordFields?, optionalField_cons_self, Value.string?,
          (roundTrips_list AirLoop.roundTrips).bind, (roundTrips_list PlantLoop.roundTrips).bind,
          Attributes.roundTrips.bind]

/-! ### Components -/

mutual

theorem Component.decode?_encode_eq_some_iff (c d : Component) :
    decode? c.encode = some d ↔ (∀ e ∈ c.preorder, e.attributes.Finite) ∧ c = d := by
  match c with
  | .mk name type attributes subs =>
      have hattributes : (Component.mk name type attributes subs).attributes = attributes := rfl
      rw [preorder, List.forall_mem_cons, hattributes]
      simp [encode, decode?, componentHead?, decodeOwned?, decodeTable?, Option.bind_assoc,
        roundTrips_string.bind, (roundTrips_member ObjectType.ofName?_name).bind,
        Attributes.roundTrips.bind,
        bind_eq_some_iff_of (decodeList?_encodeList_eq_some_iff subs), and_assoc]

theorem Component.decodeList?_encodeList_eq_some_iff (cs ds : List Component) :
    decodeList? (encodeList cs) = some ds ↔
      (∀ e ∈ preorderList cs, e.attributes.Finite) ∧ cs = ds := by
  match cs with
  | [] => simp [encodeList, decodeList?, preorderList]
  | c :: rest =>
      rw [preorderList, List.forall_mem_append]
      simp [encodeList, decodeList?, bind_eq_some_iff_of (decode?_encode_eq_some_iff c),
        bind_eq_some_iff_of (decodeList?_encodeList_eq_some_iff rest), and_assoc]

end

/-- A table of components comes back when every component below it has finite attributes. -/
theorem Component.roundTrips_table :
    RoundTrips (fun cs => Value.array (encodeList cs)) decodeTable?
      fun cs => ∀ c ∈ preorderList cs, c.attributes.Finite where
  iff := decodeList?_encodeList_eq_some_iff

/-! ### Schedules -/

theorem roundTrips_breakpoint :
    RoundTrips (fun p : TimeOfDay × Float => .array [p.1.encode, .ofFloat p.2]) breakpoint?
      fun p => p.2.isFinite = true where
  iff p q := by
    obtain ⟨time, x⟩ := p
    simp [breakpoint?, TimeOfDay.roundTrips.bind, roundTrips_float.bind]

theorem roundTrips_day : RoundTrips encodeDay decodeDay? DayProfile.Finite where
  iff d e := by
    simp [encodeDay, decodeDay?, recordFields?, encodeBreakpoints, DayProfile.Finite,
      roundTrips_string.bind, (roundTrips_list roundTrips_breakpoint).bind]

/-- A reference whose position is one of 64 bits. -/
def DayRef.Sized : DayRef → Prop
  | inline index => index < UInt64.size
  | named _ => True

/-- Each form of a reference comes back as the same form. -/
theorem DayRef.roundTrips : RoundTrips encode decode? Sized where
  iff d e := by
    cases d with
    | inline index => simp [encode, decode?, Sized, Option.map_eq_bind, roundTrips_position.bind]
    | named key => simp [encode, decode?, Sized, Option.map_eq_bind, roundTrips_string.bind]

theorem Rule.roundTrips : RoundTrips encode decode? fun r => r.day.Sized where
  iff r q := by
    simp [encode, decode?, recordFields?, roundTrips_string.bind, WeekdaySet.roundTrips.bind,
      DayRef.roundTrips.bind]

/-- A schedule whose positions are ones of 64 bits. -/
@[mk_iff]
structure Schedule.Sized (s : Schedule) : Prop where
  defaultDay : ∀ i ∈ s.defaultDay, i < UInt64.size
  summerDesignDay : ∀ i ∈ s.summerDesignDay, i < UInt64.size
  winterDesignDay : ∀ i ∈ s.winterDesignDay, i < UInt64.size
  rules : ∀ r ∈ s.rules, r.day.Sized

theorem roundTrips_place (key : String) (rest : List (String × Value)) :
    RoundTrips (fun a => (key, Value.ofOption .ofNat a) :: rest)
      (fun fields => optionalField position? fields key) fun a => ∀ i ∈ a, i < UInt64.size :=
  roundTrips_optional roundTrips_position Value.ofNat_ne_null key rest

theorem Schedule.roundTrips :
    RoundTrips encode decode? fun s => (∀ d ∈ s.days, d.Finite) ∧ s.Sized where
  iff s t := by
    simp [encode, decode?, recordFields?, Schedule.sized_iff, roundTrips_string.bind,
      (roundTrips_list roundTrips_day).bind, (roundTrips_place _ _).bind,
      (roundTrips_list Rule.roundTrips).bind, and_assoc]

/-! ### Sets and settings -/

/-- An archetype whose age is an integer of 64 bits. -/
def ArchetypeKey.Sized (k : ArchetypeKey) : Prop := IsInt64 k.buildingAge

theorem ArchetypeKey.roundTrips : RoundTrips encode decode? Sized where
  iff k l := by
    simp [encode, decode?, recordFields?, Sized, roundTrips_string.bind, roundTrips_integer.bind]

theorem ConstructionSet.roundTrips :
    RoundTrips encode decode? fun c => c.archetype.Sized ∧ c.attributes.Finite where
  iff c d := by
    simp [encode, decode?, recordFields?, roundTrips_string.bind, ArchetypeKey.roundTrips.bind,
      Attributes.roundTrips.bind, and_assoc]

theorem SpaceType.roundTrips :
    RoundTrips encode decode? fun t => t.archetype.Sized ∧ t.attributes.Finite where
  iff t u := by
    simp [encode, decode?, recordFields?, roundTrips_string.bind, ArchetypeKey.roundTrips.bind,
      Attributes.roundTrips.bind, and_assoc]

/-- Settings whose year and timestep are integers of 64 bits. -/
def RunInfo.Sized (r : RunInfo) : Prop := IsInt64 r.simulationYear ∧ IsInt64 r.timestep

theorem RunInfo.roundTrips : RoundTrips encode decode? fun r => r.Sized ∧ r.extra.Finite where
  iff r q := by
    simp [encode, decode?, recordFields?, Sized, roundTrips_string.bind, roundTrips_integer.bind,
      Attributes.roundTrips.bind, and_assoc]

theorem BuildingInfo.roundTrips : RoundTrips encode decode? fun b => b.geometry.Finite where
  iff b c := by
    simp [encode, decode?, recordFields?, roundTrips_string.bind, Attributes.roundTrips.bind]

/-! ### Documents -/

/-- A document whose numbers are finite. -/
structure Finite (d : Document) : Prop where
  measures : ∀ m ∈ d.measures, m.overrides.Finite
  systems : ∀ s ∈ d.systems, s.attributes.Finite
  components : ∀ c ∈ Component.preorderList d.components, c.attributes.Finite
  schedules : ∀ s ∈ d.schedules, ∀ day ∈ s.days, day.Finite
  constructionSets : ∀ c ∈ d.constructionSets, c.attributes.Finite
  spaceTypes : ∀ t ∈ d.spaceTypes, t.attributes.Finite
  extra : d.runInfo.extra.Finite
  geometry : d.buildingInfo.geometry.Finite

/-- A document whose positions and integers are ones of 64 bits, as its fields hold them. -/
structure Sized (d : Document) : Prop where
  schedules : ∀ s ∈ d.schedules, s.Sized
  constructionSets : ∀ c ∈ d.constructionSets, c.archetype.Sized
  spaceTypes : ∀ t ∈ d.spaceTypes, t.archetype.Sized
  runInfo : d.runInfo.Sized

/-- The serialized form of a document reads as the document and as no other one, and reads at all
exactly where the numbers of the document are finite and its integers fit their fields. -/
theorem decode?_encode_iff (d e : Document) :
    decode? d.encode = some e ↔ (d.Finite ∧ d.Sized) ∧ d = e := by
  simp only [encode, decode?, recordFields?, Option.bind_eq_bind, Option.bind_some,
    fieldOr_cons_self, field_cons_self, field_cons_of_ne, ne_eq, String.reduceEq,
    not_false_eq_true, (roundTrips_list Measure.roundTrips).bind,
    (roundTrips_list System.roundTrips).bind, Component.roundTrips_table.bind,
    (roundTrips_list Schedule.roundTrips).bind, (roundTrips_list ConstructionSet.roundTrips).bind,
    (roundTrips_list SpaceType.roundTrips).bind, RunInfo.roundTrips.bind,
    BuildingInfo.roundTrips.bind, Option.some.injEq]
  constructor
  · rintro ⟨hmeasures, hsystems, hcomponents, hschedules, hsets, htypes, ⟨hrun, hextra⟩, hgeometry,
      rfl⟩
    refine ⟨⟨?_, ?_⟩, rfl⟩
    · exact ⟨hmeasures, hsystems, hcomponents, fun s hs => (hschedules s hs).1,
        fun c hc => (hsets c hc).2, fun t ht => (htypes t ht).2, hextra, hgeometry⟩
    · exact ⟨fun s hs => (hschedules s hs).2, fun c hc => (hsets c hc).1,
        fun t ht => (htypes t ht).1, hrun⟩
  · rintro ⟨⟨hfinite, hsized⟩, rfl⟩
    exact ⟨hfinite.measures, hfinite.systems, hfinite.components,
      fun s hs => ⟨hfinite.schedules s hs, hsized.schedules s hs⟩,
      fun c hc => ⟨hsized.constructionSets c hc, hfinite.constructionSets c hc⟩,
      fun t ht => ⟨hsized.spaceTypes t ht, hfinite.spaceTypes t ht⟩,
      ⟨hsized.runInfo, hfinite.extra⟩, hfinite.geometry, rfl⟩

end HvacModel.Document
