import HvacModel.Proofs.Reading.Fields
import HvacModel.Document.Read.Records

/-! # Reading sets and records cleanly

The readers of the sets, the run settings and the building are clean exactly on those of the
grammar.  What the single records hold is there after a clean reading (`value_runInfo_isSome`,
`value_buildingInfo_isSome`). -/

namespace HvacModel.Document.Read

open Report Grammar

variable (path : Path)

/-! ### Sets -/

theorem clean_archetypeKey (fields : Fields) :
    (archetypeKey path fields).Clean ↔ HasArchetypeKey fields := by
  unfold archetypeKey HasArchetypeKey
  simp only [clean_bind, clean_requiredString, clean_requiredInteger, clean_pure, and_true]

theorem clean_constructionSet (field : String × Value) :
    (constructionSet path field).Clean ↔ IsConstructionSet field.2 := by
  unfold constructionSet IsConstructionSet
  rw [clean_object_bind]
  simp only [clean_bind, clean_archetypeKey, clean_openAttributes, clean_pure, and_true,
    archetypeFields]

theorem clean_constructionSets (value : Value) :
    (constructionSets path value).Clean ↔ IsTable (fun _ => IsConstructionSet) value := by
  unfold constructionSets IsTable
  rw [clean_object_bind]
  simp [clean_collect, clean_constructionSet]

theorem clean_spaceType (field : String × Value) :
    (spaceType path field).Clean ↔ IsSpaceType field.2 := by
  unfold spaceType IsSpaceType
  rw [clean_object_bind]
  simp only [clean_bind, clean_requiredString, clean_archetypeKey, clean_openAttributes,
    clean_pure, and_true, archetypeFields]

theorem clean_spaceTypes (value : Value) :
    (spaceTypes path value).Clean ↔ IsTable (fun _ => IsSpaceType) value := by
  unfold spaceTypes IsTable
  rw [clean_object_bind]
  simp [clean_collect, clean_spaceType]

/-! ### Records -/

theorem clean_runInfo (value : Value) : (runInfo path value).Clean ↔ IsRunInfo value := by
  unfold runInfo IsRunInfo
  rw [clean_object_bind]
  simp only [clean_bind, clean_requiredString, clean_requiredInteger, clean_openAttributes,
    clean_pure, and_true, runInfoFields]

theorem clean_buildingInfo (value : Value) :
    (buildingInfo path value).Clean ↔ IsBuildingInfo value := by
  unfold buildingInfo IsBuildingInfo
  rw [clean_object_bind]
  simp only [clean_bind, clean_requiredString, clean_openAttributes, clean_pure, and_true,
    buildingFields]

theorem value_runInfo_isSome {value : Value} (h : IsRunInfo value) :
    (runInfo path value).value.isSome := by
  obtain ⟨fields, rfl, huuid, hout, htemp, hyear, hstep, -⟩ := h
  obtain ⟨uuid, huuid⟩ := Option.isSome_iff_exists.mp (value_requiredString_of_has path huuid)
  obtain ⟨out, hout⟩ := Option.isSome_iff_exists.mp (value_requiredString_of_has path hout)
  obtain ⟨temp, htemp⟩ := Option.isSome_iff_exists.mp (value_requiredString_of_has path htemp)
  obtain ⟨year, hyear⟩ := Option.isSome_iff_exists.mp (value_requiredInteger_of_has path hyear)
  obtain ⟨step, hstep⟩ := Option.isSome_iff_exists.mp (value_requiredInteger_of_has path hstep)
  simp [runInfo, Value.fields?, huuid, hout, htemp, hyear, hstep]

theorem value_buildingInfo_isSome {value : Value} (h : IsBuildingInfo value) :
    (buildingInfo path value).value.isSome := by
  obtain ⟨fields, rfl, hspace, hset, hsystem, -⟩ := h
  obtain ⟨space, hspace⟩ := Option.isSome_iff_exists.mp (value_requiredString_of_has path hspace)
  obtain ⟨set, hset⟩ := Option.isSome_iff_exists.mp (value_requiredString_of_has path hset)
  obtain ⟨system, hsystem⟩ := Option.isSome_iff_exists.mp (value_requiredString_of_has path hsystem)
  simp [buildingInfo, Value.fields?, hspace, hset, hsystem]

end HvacModel.Document.Read
