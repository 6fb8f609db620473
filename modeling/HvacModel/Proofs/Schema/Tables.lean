import HvacModel.Proofs.Reading.Systems

/-! # What the tables declare

A component declares the attributes of its type.  An air loop declares the attributes of its system
and those that a measure writes on every air loop.  Measures have tables of their own, which repeat
names of the other two; the tables agree on the kinds of these names
(`declares_of_equipment`, `AirLoopDeclares.unique`). -/

namespace HvacModel

open Document.Read (target?_eq_some_iff)

/-- Attributes of declared names and kinds. -/
def Attributes.Within (declares : String → AttributeKind → Prop) (attributes : Attributes) :
    Prop :=
  ∀ name value, attributes.find? name = some value → declares name value.kind

/-- The attributes that a type declares. -/
def ObjectType.Declares (type : ObjectType) (name : String) (kind : AttributeKind) : Prop :=
  ∃ spec, type.declared? name = some spec ∧ spec.kind = kind

/-- The attributes that a system declares for its air loops. -/
def SystemDeclares (name : String) (kind : AttributeKind) : Prop :=
  ∃ spec, AttributeSpec.lookup systemAttributes name = some spec ∧ spec.kind = kind

/-- The keys of a category with the kinds of what they write. -/
def MeasureCategory.Declares (category : MeasureCategory) (key : String) (kind : AttributeKind) :
    Prop :=
  ∃ target, Measure.target? category key = some target ∧ target.kind = kind

/-- The attributes that an air loop may have: those of its system, and those that a measure on air
loops writes. -/
def AirLoopDeclares (name : String) (kind : AttributeKind) : Prop :=
  SystemDeclares name kind ∨ ∃ category key target, Measure.target? category key = some target ∧
    target.scope = .airLoops ∧ target.name = name ∧ target.kind = kind

/-! ### Measures on equipment -/

theorem kind_of_equipment : ∀ category ∈ MeasureCategory.all, ∀ e ∈ Measure.targets category,
    e.2.scope ≠ .airLoops → ∀ type ∈ ObjectType.all,
      (type.declared? e.2.name).all fun spec => spec.kind = e.2.kind := by
  decide

/-- A measure on equipment writes values of the kind that the types of the equipment declare. -/
theorem declares_of_equipment {category : MeasureCategory} {key : String}
    {target : Measure.Target} {type : ObjectType}
    (h : Measure.target? category key = some target) (hscope : target.scope ≠ .airLoops)
    (hdeclared : (type.declared? target.name).isSome) :
    type.Declares target.name target.kind := by
  have hcategory : category ∈ MeasureCategory.all := by cases category <;> decide
  have hmem := (target?_eq_some_iff category key target).mp h
  have hkind := kind_of_equipment category hcategory (key, target) hmem hscope type type.mem_all
  obtain ⟨spec, hspec⟩ := Option.isSome_iff_exists.mp hdeclared
  refine ⟨spec, hspec, ?_⟩
  simpa [hspec] using hkind

/-! ### Air loops -/

/-- Every declaration of an attribute of air loops. -/
def airLoopDeclarations : List (String × AttributeKind) :=
  systemAttributes.map (fun spec => (spec.name, spec.kind)) ++
    MeasureCategory.all.flatMap fun category =>
      ((Measure.targets category).filter fun e => e.2.scope = .airLoops).map fun e =>
        (e.2.name, e.2.kind)

theorem AirLoopDeclares.mem {name : String} {kind : AttributeKind} (h : AirLoopDeclares name kind) :
    (name, kind) ∈ airLoopDeclarations := by
  unfold airLoopDeclarations
  rcases h with ⟨spec, hspec, rfl⟩ | ⟨category, key, target, htarget, hscope, rfl, rfl⟩
  · have hname : spec.name = name := by simpa using List.find?_some hspec
    refine List.mem_append_left _ (List.mem_map.mpr ⟨spec, List.mem_of_find?_eq_some hspec, ?_⟩)
    rw [hname]
  · refine List.mem_append_right _ (List.mem_flatMap.mpr ⟨category, ?_, ?_⟩)
    · cases category <;> decide
    · refine List.mem_map.mpr ⟨(key, target), List.mem_filter.mpr ⟨?_, ?_⟩, rfl⟩
      · exact (target?_eq_some_iff category key target).mp htarget
      · simpa using hscope

theorem airLoopDeclarations_agree : ∀ p ∈ airLoopDeclarations, ∀ q ∈ airLoopDeclarations,
    p.1 = q.1 → p.2 = q.2 := by
  decide

/-- Whatever declares an attribute of air loops gives it the same kind. -/
theorem AirLoopDeclares.unique {name : String} {kind kind' : AttributeKind}
    (h : AirLoopDeclares name kind) (h' : AirLoopDeclares name kind') : kind = kind' :=
  airLoopDeclarations_agree _ h.mem _ h'.mem rfl

end HvacModel
