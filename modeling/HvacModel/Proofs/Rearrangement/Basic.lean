import Mathlib.Data.List.Forall2
import Mathlib.Data.List.Perm.Basic
import HvacModel.Proofs.NameMap
import HvacModel.Proofs.Related
import HvacModel.Value

/-! # Rearranged configurations

Two objects of a configuration may differ in the order of their entries only.  Whether the order is
of any account depends on the `Role` that the object plays: the entries of a *table* stand in the
order of their handles, those of a *record* are found by their keys.  `Rearranged role v w` says
that `w` is `v` with the entries of its records in another order, at any depth, and all its tables
in the same one.

A record is looked at through its keys, and keys lead to rearranged values
(`Reordered.rel_field?`).  Where the value under a key is no object of the configuration, it is the
same value in both records (`Reordered.field?_eq`). -/

namespace HvacModel

/-- What a value is to the configuration that it is a part of. -/
inductive Role where
  | document
  | measures
  | systems | system | airLoops | plantLoops | loop | loopSide
  | components | component
  | schedules | schedule | days | day | rules | rule
  | sets
  /-- A record without objects in it: the body of a measure, the values of a component, a
  construction set, a space type, the run settings or the building. -/
  | bag
  /-- A value that is taken as it is. -/
  | whole
deriving DecidableEq, Repr

namespace Role

/-- The roles of objects whose entries stand in an order that matters. -/
def isTable : Role → Bool
  | systems | airLoops | plantLoops | components | schedules | days | rules | sets => true
  | _ => false

/-- The roles of objects whose entries are found by their keys. -/
def isRecord : Role → Bool
  | document | measures | system | loop | loopSide | component | schedule | day | rule | bag => true
  | _ => false

/-- The role of the value under a key of an object. -/
def child : Role → String → Role
  | document, "measures" => measures
  | document, "hvac" => systems
  | document, "hvac_components" => components
  | document, "schedules" => schedules
  | document, "construction_sets" => sets
  | document, "space_types" => sets
  | document, "run_info" => bag
  | document, "building_info" => bag
  | measures, _ => bag
  | systems, _ => system
  | system, "air_loops" => airLoops
  | system, "plant_loops" => plantLoops
  | airLoops, _ => loop
  | plantLoops, _ => loop
  | loop, "supply_components" => loopSide
  | loop, "demand_components" => loopSide
  | components, _ => component
  | component, "component_values" => bag
  | component, "sub_components" => components
  | schedules, _ => schedule
  | schedule, "default_day" => day
  | schedule, "summer_design_day" => day
  | schedule, "winter_design_day" => day
  | schedule, "day_schedules" => days
  | schedule, "schedule_rules" => rules
  | days, _ => day
  | rules, _ => rule
  | rule, "day_schedule" => day
  | sets, _ => bag
  | _, _ => whole

end Role

mutual

/-- A value with the entries of its records in another order.  Only an object in which no key is
repeated has its entries moved. -/
inductive Rearranged : Role → Value → Value → Prop where
  | same (role : Role) (v : Value) : Rearranged role v v
  | table {role : Role} {fields fields' : List (String × Value)} : role.isTable = true →
      EachRearranged role fields fields' → Rearranged role (.object fields) (.object fields')
  | record {role : Role} {fields moved fields' : List (String × Value)} : role.isRecord = true →
      (fields.map Prod.fst).Nodup → fields.Perm moved → EachRearranged role moved fields' →
      Rearranged role (.object fields) (.object fields')

/-- Entries of an object with rearranged values, in the same order. -/
inductive EachRearranged : Role → List (String × Value) → List (String × Value) → Prop where
  | nil (role : Role) : EachRearranged role [] []
  | cons {role : Role} {key : String} {v w : Value} {rest rest' : List (String × Value)} :
      Rearranged (role.child key) v w → EachRearranged role rest rest' →
      EachRearranged role ((key, v) :: rest) ((key, w) :: rest')

end

/-! ### Entries of objects -/

/-- An entry with the same key and a rearranged value. -/
def Role.Moves (role : Role) (e e' : String × Value) : Prop :=
  e'.1 = e.1 ∧ Rearranged (role.child e.1) e.2 e'.2

theorem EachRearranged.forall₂ {role : Role} {fields fields' : List (String × Value)}
    (h : EachRearranged role fields fields') : List.Forall₂ role.Moves fields fields' := by
  induction fields generalizing fields' with
  | nil =>
      cases h
      exact .nil
  | cons e rest ih =>
      cases h with
      | cons hv hrest => exact .cons ⟨rfl, hv⟩ (ih hrest)

/-- The entries of a record in another order, with rearranged values. -/
structure Reordered (role : Role) (fields fields' : List (String × Value)) : Prop where
  distinct : (fields.map Prod.fst).Nodup
  exists_perm : ∃ moved, fields.Perm moved ∧ List.Forall₂ role.Moves moved fields'

theorem Rearranged.eq_of_whole {v w : Value} (h : Rearranged .whole v w) : w = v := by
  cases h with
  | same => rfl
  | table h => cases h
  | record h => cases h

/-- A value that is taken as it is makes its entry stay as it is. -/
theorem Role.Moves.eq_of_whole {role : Role} {e e' : String × Value} (h : role.Moves e e')
    (hkey : role.child e.1 = .whole) : e' = e := by
  obtain ⟨hfst, hv⟩ := h
  rw [hkey] at hv
  exact Prod.ext hfst hv.eq_of_whole

/-- A rearranged record is the same value or an object with reordered entries. -/
theorem Rearranged.of_record {role : Role} (hr : role.isTable = false) {v w : Value}
    (h : Rearranged role v w) :
    w = v ∨ ∃ fields fields', v = .object fields ∧ w = .object fields' ∧
      Reordered role fields fields' := by
  cases h with
  | same => exact .inl rfl
  | table h =>
      rw [hr] at h
      cases h
  | record _ hn hp hf => exact .inr ⟨_, _, rfl, rfl, hn, _, hp, hf.forall₂⟩

/-- A rearranged table is the same value or an object with the same keys. -/
theorem Rearranged.of_table {role : Role} (hr : role.isRecord = false) {v w : Value}
    (h : Rearranged role v w) :
    w = v ∨ ∃ fields fields', v = .object fields ∧ w = .object fields' ∧
      List.Forall₂ role.Moves fields fields' := by
  cases h with
  | same => exact .inl rfl
  | table _ hf => exact .inr ⟨_, _, rfl, rfl, hf.forall₂⟩
  | record h =>
      rw [hr] at h
      cases h

namespace Reordered

variable {role : Role} {fields fields' : List (String × Value)}

theorem forall₂_keys {moved : List (String × Value)}
    (h : List.Forall₂ role.Moves moved fields') : fields'.map Prod.fst = moved.map Prod.fst := by
  induction h with
  | nil => rfl
  | cons he _ ih => rw [List.map_cons, List.map_cons, he.1, ih]

/-- The keys are moved along with their values. -/
theorem distinct' (h : Reordered role fields fields') : (fields'.map Prod.fst).Nodup := by
  obtain ⟨moved, hp, hf⟩ := h.exists_perm
  rw [forall₂_keys hf]
  exact (hp.map Prod.fst).nodup_iff.mp h.distinct

theorem exists_right (h : Reordered role fields fields') {e : String × Value} (he : e ∈ fields) :
    ∃ e' ∈ fields', role.Moves e e' := by
  obtain ⟨moved, hp, hf⟩ := h.exists_perm
  exact hf.exists_right (hp.mem_iff.mp he)

theorem exists_left (h : Reordered role fields fields') {e' : String × Value}
    (he : e' ∈ fields') : ∃ e ∈ fields, role.Moves e e' := by
  obtain ⟨moved, hp, hf⟩ := h.exists_perm
  obtain ⟨e, he, hm⟩ := hf.exists_left he
  exact ⟨e, hp.mem_iff.mpr he, hm⟩

/-- Under a key both records have rearranged values, or none. -/
theorem rel_field? (h : Reordered role fields fields') (key : String) :
    Option.Rel (Rearranged (role.child key)) (Value.field? fields key)
      (Value.field? fields' key) := by
  have hleft := NameMap.lookup_eq_some_iff_mem h.distinct key
  have hright := NameMap.lookup_eq_some_iff_mem h.distinct' key
  cases hf : Value.field? fields key with
  | some v =>
      obtain ⟨⟨key', w⟩, hw, hkey, hm⟩ := h.exists_right ((hleft v).mp hf)
      cases hkey
      rw [show Value.field? fields' key = some w from (hright w).mpr hw]
      exact .some hm
  | none =>
      cases hf' : Value.field? fields' key with
      | none => exact .none
      | some w =>
          obtain ⟨⟨key', v⟩, hv, hkey, -⟩ := h.exists_left ((hright w).mp hf')
          cases hkey
          rw [show Value.field? fields key = some v from (hleft v).mpr hv] at hf
          cases hf

/-- A value that is taken as it is stays under its key. -/
theorem field?_eq (h : Reordered role fields fields') (key : String)
    (hkey : role.child key = .whole) : Value.field? fields' key = Value.field? fields key := by
  have hrel := h.rel_field? key
  rw [hkey] at hrel
  generalize Value.field? fields key = found, Value.field? fields' key = found' at hrel
  cases hrel with
  | none => rfl
  | some hv => rw [hv.eq_of_whole]

end Reordered

end HvacModel
