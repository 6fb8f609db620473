import HvacModel.Proofs.Reading.Located
import HvacModel.Proofs.Reading.Document

/-! # The issues of independent parts

All readers of a document report into one list.  `Document.issues` is that list; it is put together
from parts that do not know of each other.

* `sectionIssues` are the issues of the value of a section, a function of that value alone.  The
  list of the whole is the unknown sections, the missing ones, and then the issues of the sections
  in a fixed order (`issues_object`).
* The issues of a table are those of its entries one after the other, and each of them is located
  in its entry (`exists_entryIssues`).

So the issues that an entry causes stand between two lists that the entry has no influence on
(`issues_independent`). -/

namespace HvacModel.Document

open Report Grammar Read

/-- The issues of a raw value; there are none when it is read to a document. -/
def issues (value : Value) : List Issue :=
  match Document.read value with
  | .ok _ => []
  | .error found => found

/-- The issues of the value of a section. -/
def sectionIssues (name : String) (value : Value) : List Issue :=
  match name with
  | "measures" => (Read.measures [.key "measures"] value).findings
  | "hvac" => (Read.systems [.key "hvac"] value).findings
  | "hvac_components" => (Read.components [.key "hvac_components"] value).findings
  | "schedules" => (Read.schedules [.key "schedules"] value).findings
  | "construction_sets" => (Read.constructionSets [.key "construction_sets"] value).findings
  | "space_types" => (Read.spaceTypes [.key "space_types"] value).findings
  | "run_info" => (Read.runInfo [.key "run_info"] value).findings
  | "building_info" => (Read.buildingInfo [.key "building_info"] value).findings
  | _ => []

/-- The sections that are tables. -/
def tableSections : List String :=
  ["measures", "hvac", "hvac_components", "schedules", "construction_sets", "space_types"]

/-- The issues of the sections that are unknown, in the order of the keys. -/
def unknownIssues (root : Fields) : List Issue :=
  ((root.map Prod.fst).filter fun key => key ∉ sections).map fun key =>
    ⟨[.key key], .unknownSection key⟩

/-- The issues of the required sections that are missing. -/
def missingIssues (root : Fields) : List Issue :=
  (requiredSections.filter fun name => (Value.field? root name).isNone).map fun name =>
    ⟨[], .missingField name⟩

/-! ### The whole -/

theorem issues_eq (value : Value) : issues value = (document value).findings := by
  unfold issues
  cases h : Document.read value with
  | ok d => exact ((read_eq_ok_iff value d).mp h).1.symm
  | error found =>
      unfold Document.read at h
      cases hv : (document value).value with
      | none =>
          simp only [hv, Except.error.injEq] at h
          exact h.symm
      | some d =>
          by_cases hf : (document value).findings = []
          · simp [hv, hf] at h
          · simp only [hv, List.isEmpty_iff, hf, if_false, Except.error.injEq] at h
            exact h.symm

theorem findings_unknownSections (root : Fields) :
    (unknownSections root).findings = unknownIssues root := by
  induction root with
  | nil => rfl
  | cons e rest ih =>
      obtain ⟨key, value⟩ := e
      unfold unknownIssues at ih ⊢
      rw [List.map_cons, List.filter_cons]
      by_cases h : key ∈ sections
      · simpa [unknownSections, h] using ih
      · simpa [unknownSections, h, issue, Report.tell] using ih

theorem findings_missingSections (root : Fields) (names : List String) :
    (missingSections root names).findings =
      (names.filter fun name => (Value.field? root name).isNone).map fun name =>
        ⟨[], .missingField name⟩ := by
  induction names with
  | nil => rfl
  | cons name rest ih =>
      rw [List.filter_cons]
      cases h : Value.field? root name with
      | none => simpa [missingSections, h, issue, Report.tell] using ih
      | some value => simpa [missingSections, h] using ih

theorem findings_sectionIn {α : Type} (root : Fields) (name : String)
    (read : Path → Value → Reading (Option α)) :
    (sectionIn root name read).findings =
      (Value.field? root name).toList.flatMap fun value => (read [.key name] value).findings :=
  findings_whenSome _ _

theorem findings_measuresSection (root : Fields) :
    (measuresSection root).findings =
      (Value.field? root "measures").toList.flatMap (sectionIssues "measures") := by
  unfold measuresSection
  cases h : Value.field? root "measures" with
  | none => rfl
  | some value => simp [h, sectionIn, sectionIssues]

/-- The issues of an object, part by part. -/
theorem issues_object (root : Fields) :
    issues (.object root) = unknownIssues root ++ missingIssues root ++
      sections.flatMap fun name =>
        (Value.field? root name).toList.flatMap (sectionIssues name) := by
  rw [issues_eq]
  unfold document
  simp only [object, whenSome_some, ite_bind, findings_bind, findings_pure, value_pure,
    List.nil_append, List.append_nil, measuresSection_eq, findings_unknownSections,
    findings_missingSections, findings_measuresSection, findings_sectionIn, sections,
    List.flatMap_cons, List.flatMap_nil, List.append_assoc]
  rfl

/-! ### Tables -/

theorem findings_table {α : Type} (path : Path) (step : String × Value → Reading (Option α))
    (entries : Fields) :
    (object path (.object entries) >>= fun fields => whenSome fields fun fields =>
      collect step fields >>= fun list => pure (some list)).findings =
        entries.flatMap fun e => (step e).findings := by
  simp [object, findings_collect]

theorem findings_componentList (path : Path) (entries : Fields) :
    (Read.componentList path entries).findings =
      entries.flatMap fun e => (component (path.child e.1) e.1 e.2).findings := by
  induction entries with
  | nil => simp [Read.componentList]
  | cons e rest ih =>
      obtain ⟨name, value⟩ := e
      rw [Read.componentList, findings_bind, findings_bind, ih, findings_pure, List.append_nil,
        List.flatMap_cons]

/-- The issues of a table are those of its entries, each located in its entry. -/
theorem exists_entryIssues {name : String} (h : name ∈ tableSections) :
    ∃ found : String × Value → List Issue,
      (∀ entries, sectionIssues name (.object entries) = entries.flatMap found) ∧
        ∀ e, ∀ issue ∈ found e, [.key name, .key e.1] <+: issue.path := by
  simp only [tableSections, List.mem_cons, List.not_mem_nil, or_false] at h
  rcases h with rfl | rfl | rfl | rfl | rfl | rfl
  · exact ⟨_, findings_table _ (measure [.key "measures"]), located_measure⟩
  · exact ⟨_, findings_table _ (system [.key "hvac"]), located_system⟩
  · refine ⟨fun e => (component (Path.child [.key "hvac_components"] e.1) e.1 e.2).findings,
      fun entries => ?_, fun e => located_component List.prefix_rfl e.1 e.2⟩
    show (Read.components [.key "hvac_components"] (.object entries)).findings = _
    simp [Read.components, object, findings_componentList]
  · exact ⟨_, findings_table _ (schedule [.key "schedules"]), located_schedule⟩
  · exact ⟨_, findings_table _ (constructionSet [.key "construction_sets"]),
      located_constructionSet⟩
  · exact ⟨_, findings_table _ (spaceType [.key "space_types"]), located_spaceType⟩

/-! ### Replacing a section -/

theorem field?_insertField_of_ne (root : Fields) {key name : String} (value : Value)
    (h : key ≠ name) :
    Value.field? (Value.insertField root name value) key = Value.field? root key := by
  induction root with
  | nil => simp [Value.insertField, Value.field?, NameMap.lookup_cons_ite, h]
  | cons e rest ih =>
      obtain ⟨k, v⟩ := e
      unfold Value.field? at ih ⊢
      by_cases hk : k = name
      · subst hk
        simp [Value.insertField, NameMap.lookup_cons_ite, h]
      · simp [Value.insertField, hk, NameMap.lookup_cons_ite, ih]

theorem unknownIssues_insertField (root : Fields) {name : String} (value : Value)
    (h : name ∈ sections) :
    unknownIssues (Value.insertField root name value) = unknownIssues root := by
  unfold unknownIssues
  rw [Value.keys_insertField]
  by_cases hk : name ∈ root.map Prod.fst
  · rw [if_pos hk]
  · rw [if_neg hk, List.filter_append]
    simp [h]

/-- Which required sections are missing does not depend on the value of a section. -/
theorem missingIssues_insertField (root : Fields) (name : String) (value other : Value) :
    missingIssues (Value.insertField root name value) =
      missingIssues (Value.insertField root name other) := by
  unfold missingIssues
  congr 1
  apply List.filter_congr
  intro key _
  by_cases hk : key = name
  · rw [hk, Value.field?_insertField, Value.field?_insertField]
    rfl
  · rw [field?_insertField_of_ne root value hk, field?_insertField_of_ne root other hk]

/-- The issues of a section stand between two lists that its value has no influence on. -/
theorem exists_issues_insertField (root : Fields) {name : String} (h : name ∈ sections) :
    ∃ front back, ∀ value,
      issues (.object (Value.insertField root name value)) =
        front ++ sectionIssues name value ++ back := by
  obtain ⟨before, after, hs⟩ := List.append_of_mem h
  have hn : (before ++ name :: after).Nodup := hs ▸ (by decide : sections.Nodup)
  have hb : ∀ key ∈ before, key ≠ name := by
    rintro key hk rfl
    exact (List.nodup_append.mp hn).2.2 key hk key List.mem_cons_self rfl
  have ha : ∀ key ∈ after, key ≠ name := by
    rintro key hk rfl
    exact (List.nodup_cons.mp (List.nodup_append.mp hn).2.1).1 hk
  have hsame : ∀ (names : List String) (value : Value), (∀ key ∈ names, key ≠ name) →
      (names.flatMap fun key => (Value.field? (Value.insertField root name value) key).toList.flatMap
        (sectionIssues key)) =
        names.flatMap fun key => (Value.field? root key).toList.flatMap (sectionIssues key) := by
    intro names value hne
    apply List.flatMap_congr
    intro key hk
    rw [field?_insertField_of_ne root value (hne key hk)]
  refine ⟨unknownIssues root ++ missingIssues (Value.insertField root name .null) ++
    before.flatMap fun key => (Value.field? root key).toList.flatMap (sectionIssues key),
    after.flatMap fun key => (Value.field? root key).toList.flatMap (sectionIssues key),
    fun value => ?_⟩
  rw [issues_object, hs, List.flatMap_append, List.flatMap_cons, hsame before value hb,
    hsame after value ha, unknownIssues_insertField root value h,
    missingIssues_insertField root name value .null, Value.field?_insertField]
  simp only [Option.toList_some, List.flatMap_cons, List.flatMap_nil, List.append_nil,
    List.append_assoc]

/-- The issues of a document are those of its parts, and no part has an influence on those of
another one: they are the unknown sections in the order of the keys, the missing sections in the
required order, and the issues of each section, a function of its own value.  The issues of a table
are those that each entry gives as the only entry.  Whatever stands at one place of a table, its
issues stand between the same two lists, and they are located in the entries that stand there. -/
theorem issues_independent (root : Fields) :
    issues (.object root) = unknownIssues root ++ missingIssues root ++
        sections.flatMap (fun name =>
          (Value.field? root name).toList.flatMap (sectionIssues name)) ∧
      ∀ name ∈ tableSections,
        (∀ entries, sectionIssues name (.object entries) =
          entries.flatMap fun e => sectionIssues name (.object [e])) ∧
        ∀ before after : Fields, ∃ front back, ∀ change : Fields,
          issues (.object (Value.insertField root name (.object (before ++ change ++ after)))) =
              front ++ sectionIssues name (.object change) ++ back ∧
            ∀ issue ∈ sectionIssues name (.object change),
              ∃ e ∈ change, [.key name, .key e.1] <+: issue.path := by
  refine ⟨issues_object root, fun name h => ?_⟩
  obtain ⟨found, hfound, hlocated⟩ := exists_entryIssues h
  refine ⟨fun entries => ?_, fun before after => ?_⟩
  · simp only [hfound, List.flatMap_singleton]
  · have hs : name ∈ sections := List.mem_of_mem_take (i := 6) h
    obtain ⟨front, back, hissues⟩ := exists_issues_insertField root hs
    refine ⟨front ++ before.flatMap found, after.flatMap found ++ back, fun change => ⟨?_, ?_⟩⟩
    · simp only [hissues, hfound, List.flatMap_append, List.append_assoc]
    · intro issue hi
      rw [hfound, List.mem_flatMap] at hi
      obtain ⟨e, he, hie⟩ := hi
      exact ⟨e, he, hlocated e issue hie⟩

end HvacModel.Document
