import HvacModel.Document.Read.Fields

/-! # Reading the measures section

Every key of a category writes a declared target, and its value has the target's kind. -/

namespace HvacModel.Document.Read

open Report (whenSome collect)

/-- One override. -/
def override (path : Path) (category : MeasureCategory) (field : String × Value) :
    Reading (Option (String × AttributeValue)) :=
  match HvacModel.Measure.target? category field.1 with
  | some target => entry field.1 (typedScalar (path.child field.1) target.kind field.2)
  | none => do
    issue (path.child field.1) (.unknownMeasureKey category field.1)
    pure none

/-- The overrides of one category. -/
def measure (path : Path) (field : String × Value) : Reading (Option Measure) :=
  match MeasureCategory.ofName? field.1 with
  | none => do
    issue (path.child field.1) (.unknownMeasureCategory field.1)
    pure none
  | some category => do
    whenSome (← object (path.child field.1) field.2) fun body => do
      let overrides ← collect (override (path.child field.1) category) body
      pure (some ⟨category, NameMap.ofList overrides⟩)

/-- The measures section. -/
def measures (path : Path) (value : Value) : Reading (Option (List Measure)) := do
  whenSome (← object path value) fun fields => do
    pure (some (← collect (measure path) fields))

end HvacModel.Document.Read
