import HvacModel.Proofs.Component.Representation
import HvacModel.Proofs.Model.Encode
import HvacModel.Proofs.Model.Positions

/-! # The text behind a fingerprint

The fingerprint of a model is the hash of its compact text, and the text determines the model
(`Document.compact_encode_eq_iff`): it can be read in one way only, it holds every field but the
keys of inert rules, and the indexes that it leaves out are those of the components that it lists
(`Arena.Indexed`). -/

namespace HvacModel

open HvacModel.Measure

/-! ### The indexes of an arena -/

namespace Arena

/-- The names and the scopes of an arena are those of its nodes. -/
structure Indexed (a : Arena) : Prop where
  names : ∀ name id, a.names.find? name = some id ↔
    ∃ n, a.node? id = some n ∧ n.owner = none ∧ n.name = name
  scope : ∀ id n, a.node? id = some n → ∀ s : NameIndex .component, a.scopes[id.index]? = some s →
    ∀ name sub, s.find? name = some sub ↔
      sub ∈ n.subComponents ∧ ∃ m, a.node? sub = some m ∧ m.name = name

variable {a b : Arena}

theorem Built.indexed {tops : List Document.Component} (h : a.Built tops) : a.Indexed where
  names := h.names_iff
  scope _ _ hn _ hs := h.scope_iff hn hs

theorem node?_mapAttributes (a : Arena) (f : ComponentNode → Attributes) (id : Handle .component) :
    (a.mapAttributes f).node? id = (a.node? id).map fun n => { n with attributes := f n } := by
  rw [Arena.node?, Arena.node?, Arena.mapAttributes, List.getElem?_map, Option.map_map,
    Option.map_map]
  rfl

theorem scopes_mapAttributes (a : Arena) (f : ComponentNode → Attributes) :
    (a.mapAttributes f).scopes = a.scopes := by
  rw [scopes, scopes, Arena.mapAttributes, List.map_map]
  rfl

/-- Attributes do not matter. -/
theorem Indexed.mapAttributes (h : a.Indexed) (f : ComponentNode → Attributes) :
    (a.mapAttributes f).Indexed := by
  constructor
  · intro name id
    simp only [node?_mapAttributes, Option.map_eq_some_iff]
    refine (h.names name id).trans ⟨?_, ?_⟩
    · rintro ⟨n, hn, howner, hname⟩
      exact ⟨_, ⟨n, hn, rfl⟩, howner, hname⟩
    · rintro ⟨_, ⟨n, hn, rfl⟩, howner, hname⟩
      exact ⟨n, hn, howner, hname⟩
  · intro id n' hn' s hs name sub
    simp only [node?_mapAttributes, Option.map_eq_some_iff] at hn' ⊢
    obtain ⟨n, hn, rfl⟩ := hn'
    rw [scopes_mapAttributes] at hs
    refine (h.scope id n hn s hs name sub).trans (and_congr_right fun _ => ⟨?_, ?_⟩)
    · rintro ⟨m, hm, hname⟩
      exact ⟨_, ⟨m, hm, rfl⟩, hname⟩
    · rintro ⟨_, ⟨m, hm, rfl⟩, hname⟩
      exact ⟨m, hm, hname⟩

/-- The nodes of an arena determine it. -/
theorem Indexed.eq_of_nodes_eq (ha : a.Indexed) (hb : b.Indexed) (h : a.nodes = b.nodes) :
    a = b := by
  have hnode : ∀ id, a.node? id = b.node? id := fun id => by
    rw [node?_eq_getElem?, node?_eq_getElem?, h]
  have hnames : a.names = b.names := by
    refine NameMap.ext_find? fun name => Option.ext fun id => ?_
    rw [ha.names, hb.names, hnode]
  have hslots : a.slots = b.slots := by
    have hlength : a.slots.length = b.slots.length := by
      simpa only [nodes, List.length_map] using congrArg List.length h
    refine List.ext_getElem hlength fun i hi hi' => ?_
    have hsa : a.slots[i]? = some a.slots[i] := List.getElem?_eq_getElem hi
    have hsb : b.slots[i]? = some b.slots[i] := List.getElem?_eq_getElem hi'
    have hna : a.node? ⟨i⟩ = some a.slots[i].node := by rw [Arena.node?, hsa]; rfl
    have hnb : b.node? ⟨i⟩ = some b.slots[i].node := by rw [Arena.node?, hsb]; rfl
    have heq : a.slots[i].node = b.slots[i].node := by
      rw [hnode, hnb, Option.some.injEq] at hna
      exact hna.symm
    have hscope : a.slots[i].scope = b.slots[i].scope := by
      refine NameMap.ext_find? fun name => Option.ext fun sub => ?_
      rw [ha.scope ⟨i⟩ _ hna _ (by rw [scopes, List.getElem?_map, hsa]; rfl),
        hb.scope ⟨i⟩ _ hnb _ (by rw [scopes, List.getElem?_map, hsb]; rfl), heq, hnode]
    calc a.slots[i] = ⟨a.slots[i].node, a.slots[i].scope⟩ := rfl
      _ = ⟨b.slots[i].node, b.slots[i].scope⟩ := by rw [heq, hscope]
      _ = b.slots[i] := rfl
  calc a = ⟨a.slots, a.names⟩ := rfl
    _ = ⟨b.slots, b.names⟩ := by rw [hslots, hnames]
    _ = b := rfl

end Arena

/-! ### Models -/

/-- The arena of a compiled model has the indexes of its nodes. -/
theorem Document.Stages.indexed {d : Document} {stages : List (List MeasureCategory)}
    {skeleton : Skeleton} {applied : Applied} {schedules : List CompiledSchedule}
    (h : d.Stages stages skeleton applied schedules) : applied.skeleton.components.Indexed := by
  obtain ⟨-, rfl⟩ := (Skeleton.applyMeasures_eq_ok_iff skeleton d.measures stages applied).mp h.applied
  have hresolved := ((Document.resolve_eq_ok_iff d skeleton).mp h.resolved).components
  have hbuilt := (Arena.built_after d.components).indexed
  rw [Arena.after, hresolved] at hbuilt
  exact hbuilt.mapAttributes fun n => written _ (.component n.id) n.attributes

namespace Model

/-- A model without the keys of the inert rules of its schedules. -/
def withoutInert (m : Model) : Model :=
  { m with schedules := m.schedules.map CompiledSchedule.withoutInert }

theorem encode_withoutInert (m : Model) : m.withoutInert.encode = m.encode := by
  simp only [withoutInert, encode, Value.ofList, List.map_map]
  rfl

/-- The raw value of a model determines it but for its inert rules. -/
theorem withoutInert_eq_of_encode_eq {m n : Model} (hm : m.Finite) (hn : n.Finite)
    (hmi : m.components.Indexed) (hni : n.components.Indexed) (h : m.encode = n.encode) :
    m.withoutInert = n.withoutInert := by
  simp only [encode, Value.object.injEq, List.cons.injEq, Prod.mk.injEq, true_and, and_true] at h
  obtain ⟨hcomponents, hsystems, hschedules, hsets, hspaces, hbuilding, hinfo⟩ := h
  have hcomponents : m.components = n.components := hmi.eq_of_nodes_eq hni <|
    Value.eq_of_ofList_eq (fun a ha b hb =>
      ComponentNode.eq_of_encode_eq (hm.components a ha) (hn.components b hb)) hcomponents
  have hsystems := Value.eq_of_ofList_eq (fun s hs t ht =>
    Skeleton.System.eq_of_encode_eq (hm.systems s hs) (hn.systems t ht)) hsystems
  have hschedules := map_eq_of_map_eq (fun s hs t ht =>
    CompiledSchedule.withoutInert_eq_of_encode_eq (hm.schedules s hs) (hn.schedules t ht))
    (Value.array.inj hschedules)
  have hsets := Value.eq_of_ofList_eq (fun c hc e he =>
    Document.ConstructionSet.eq_of_encode_eq (hm.constructionSets c hc) (hn.constructionSets e he))
    hsets
  have hspaces := Value.eq_of_ofList_eq (fun t ht u hu =>
    Document.SpaceType.eq_of_encode_eq (hm.spaceTypes t ht) (hn.spaceTypes u hu)) hspaces
  have hbuilding := Building.eq_of_encode_eq hm.geometry hn.geometry hbuilding
  have hinfo := Document.RunInfo.eq_of_encode_eq hm.extra hn.extra hinfo
  simp only [withoutInert, hcomponents, hsystems, hschedules, hsets, hspaces, hbuilding, hinfo]

end Model

/-- Compiled models have the same compact text exactly when they are the same but for their inert
rules. -/
theorem Document.compact_encode_eq_iff (d e : Document) (stages stages' : List (List MeasureCategory))
    {c c' : Compiled} (hc : d.compile stages = .ok c) (hc' : e.compile stages' = .ok c')
    (hm : c.model.Finite) (hm' : c'.model.Finite) :
    Json.compact c.model.encode = Json.compact c'.model.encode ↔
      c.model.withoutInert = c'.model.withoutInert := by
  constructor
  · intro h
    obtain ⟨_, _, _, hstages, rfl⟩ := (Document.compile_eq_ok_iff d stages c).mp hc
    obtain ⟨_, _, _, hstages', rfl⟩ := (Document.compile_eq_ok_iff e stages' c').mp hc'
    have hencode := Json.compact_injective (Model.finite_encode _) (Model.finite_encode _) h
    exact Model.withoutInert_eq_of_encode_eq hm hm' hstages.indexed hstages'.indexed hencode
  · intro h
    rw [← Model.encode_withoutInert, h, Model.encode_withoutInert]

/-- The school with one schedule: lessons of a value, and rules after the one of the term. -/
def lessons (value : Float) (more : List Document.Rule) : Document :=
  { school with
    schedules := [⟨"lessons", "Lessons", [⟨"off", "off", [(.midnight, 0)]⟩,
      ⟨"on", "on", [(.midnight, value)]⟩], some 0, none, none,
      ⟨"term", "term", .ofList [.monday, .friday], .named "on"⟩ :: more⟩] }

/-- A rule for a weekday of the term. -/
def lateRule : Document.Rule := ⟨"late", "Late", .ofList [.friday], .named "off"⟩

/-- A rule that comes too late for its weekday is not seen in the text, a number is. -/
theorem compact_encode_lessons :
    ∃ c late half, (lessons 1 []).compile defaultStages = .ok c ∧
      (lessons 1 [lateRule]).compile defaultStages = .ok late ∧
      (lessons 0.5 []).compile [] = .ok half ∧
      c.model ≠ late.model ∧
      Json.compact c.model.encode = Json.compact late.model.encode ∧
      Json.compact c.model.encode ≠ Json.compact half.model.encode := by
  refine ⟨_, _, _, rfl, rfl, rfl, by decide +kernel, ?_, fun htext => ?_⟩
  · exact (Document.compact_encode_eq_iff (lessons 1 []) (lessons 1 [lateRule]) defaultStages
      defaultStages rfl rfl (by decide +kernel) (by decide +kernel)).2 rfl
  · have hmodel := (Document.compact_encode_eq_iff (lessons 1 []) (lessons 0.5 []) defaultStages []
      rfl rfl (by decide +kernel) (by decide +kernel)).1 htext
    revert hmodel
    decide +kernel

end HvacModel
