import HvacModel.Document.Read.Measures
import HvacModel.Document.Read.Systems
import HvacModel.Document.Read.Components
import HvacModel.Document.Read.Schedules
import HvacModel.Document.Read.Records

/-! # Reading a document

`Document.read` turns a raw value into a document or into the list of all its issues: those of the
section names, then those of each section, in a fixed order.  A document is returned exactly when
there is no issue. -/

namespace HvacModel.Document

open Report (whenSome)

/-- The sections of a document. -/
def sections : List String :=
  ["measures", "hvac", "hvac_components", "schedules", "construction_sets", "space_types",
    "run_info", "building_info"]

/-- The sections that must be there. -/
def requiredSections : List String := sections.drop 1

namespace Read

/-- An issue for every unknown section. -/
def unknownSections : List (String × Value) → Reading Unit
  | [] => pure ()
  | (key, _) :: rest => do
    if key ∈ sections then pure () else issue [.key key] (.unknownSection key)
    unknownSections rest

/-- An issue for every section of a list that is missing. -/
def missingSections (fields : List (String × Value)) : List String → Reading Unit
  | [] => pure ()
  | name :: rest => do
    if (Value.field? fields name).isSome then pure () else issue [] (.missingField name)
    missingSections fields rest

/-- The section of a name, if it is there. -/
def sectionIn {α : Type} (fields : List (String × Value)) (name : String)
    (read : Path → Value → Reading (Option α)) : Reading (Option α) :=
  whenSome (Value.field? fields name) (read [.key name])

/-- A document, absent where a section is. -/
def document (value : Value) : Reading (Option Document) := do
  whenSome (← object [] value) fun fields => do
    unknownSections fields
    missingSections fields requiredSections
    let measures ←
      if (Value.field? fields "measures").isSome then sectionIn fields "measures" measures
      else pure (some [])
    let systems ← sectionIn fields "hvac" systems
    let components ← sectionIn fields "hvac_components" components
    let schedules ← sectionIn fields "schedules" schedules
    let constructionSets ← sectionIn fields "construction_sets" constructionSets
    let spaceTypes ← sectionIn fields "space_types" spaceTypes
    let runInfo ← sectionIn fields "run_info" runInfo
    let buildingInfo ← sectionIn fields "building_info" buildingInfo
    pure do
      let measures ← measures
      let systems ← systems
      let components ← components
      let schedules ← schedules
      let constructionSets ← constructionSets
      let spaceTypes ← spaceTypes
      let runInfo ← runInfo
      let buildingInfo ← buildingInfo
      some ⟨measures, systems, components, schedules, constructionSets, spaceTypes, runInfo,
        buildingInfo⟩

end Read

/-- The document that a raw value denotes, or all its issues. -/
def read (value : Value) : Except (List Issue) Document :=
  let report := Read.document value
  match report.value with
  | some document => if report.findings.isEmpty then .ok document else .error report.findings
  | none => .error report.findings

end HvacModel.Document
