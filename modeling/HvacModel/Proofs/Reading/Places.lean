import HvacModel.Proofs.Keys
import HvacModel.Proofs.NameMap
import HvacModel.Proofs.Reading.Fields
import HvacModel.Proofs.Reading.ScheduleDays
import HvacModel.Proofs.Reading.TimeKeys
import HvacModel.Document.Read

/-! # What issues say

An issue names a place and says something about the value there.  `Value.Leads` follows the steps
of a place from the root down, `IssueKind.TrueAt` is what each kind of issue says, and
`Truthful root r` says that every issue that `r` reports is at a place of `root` and true there.

A reader is handed a place along with the value, and nothing ties the one to the other but the way
the reader was called.  So its lemma asks that the place leads to the value, and the combinators
pass that on to the parts: `truthful_inObject`, `truthful_inRequired`, `truthful_inField` and
`truthful_collect` go down to them. -/

namespace HvacModel

/-- The steps of a place lead from a value to another one. -/
inductive Value.Leads (root : Value) : Path → Value → Prop
  | root : Leads root [] root
  | child {path : Path} {fields : List (String × Value)} {key : String} {value : Value}
    (h : Leads root path (.object fields)) (hm : (key, value) ∈ fields) :
    Leads root (path.child key) value
  | item {path : Path} {items : List Value} {i : Nat} {value : Value}
    (h : Leads root path (.array items)) (hi : items[i]? = some value) :
    Leads root (path.item i) value

namespace Value

theorem at?_append (value : Value) (path rest : Path) :
    value.at? (path ++ rest) = (value.at? path).bind fun v => v.at? rest := by
  induction path generalizing value with
  | nil => rfl
  | cons step path ih =>
      rw [List.cons_append, Document.Read.at?_cons, Document.Read.at?_cons value step path,
        Option.bind_assoc]
      simp only [ih]

/-- Where keys are distinct, a place leads to the one value that is there. -/
theorem Leads.at?_eq {root value : Value} {path : Path} (h : root.Leads path value)
    (hroot : root.distinctKeys = true) :
    root.at? path = some value ∧ value.distinctKeys = true := by
  induction h with
  | root => exact ⟨rfl, hroot⟩
  | @child path fields key value _ hm ih =>
      obtain ⟨hat, hfields⟩ := ih
      obtain ⟨hkeys, hall⟩ := (distinctKeys_object fields).mp hfields
      refine ⟨?_, hall _ hm⟩
      have hfield : field? fields key = some value :=
        (NameMap.lookup_eq_some_iff_mem hkeys key value).mpr hm
      rw [Path.child, at?_append, hat]
      simp [at?, hfield]
  | @item path items i value _ hi ih =>
      obtain ⟨hat, hitems⟩ := ih
      refine ⟨?_, (distinctKeys_array items).mp hitems _ (List.mem_of_getElem? hi)⟩
      rw [Path.item, at?_append, hat]
      simp [at?, hi]

end Value

namespace Document

/-! ### What is said -/

/-- A value is what a place asks for. -/
def Expectation.Admits : Expectation → Value → Prop
  | object, .object _ => True
  | string, .string _ => True
  | number, .number _ => True
  | integer, .number n => n.integer?.isSome = true
  | boolean, .bool _ => True
  | nameList, .string _ | nameList, .array _ => True
  | scalar, .number _ | scalar, .string _ | scalar, .bool _ => True
  | daySchedule, .object _ | daySchedule, .string _ => True
  | _, _ => False

/-- The last step of a place is a key. -/
def LastKey (path : Path) (key : String) : Prop := path.getLast? = some (.key key)

/-- What an issue says about the value at its place. -/
def IssueKind.TrueAt (path : Path) (place : Value) : IssueKind → Prop
  | unknownSection name => LastKey path name ∧ name ∉ sections
  | unknownField name => LastKey path name
  | missingField name => ∃ fields, place = .object fields ∧ name ∉ fields.map Prod.fst
  | typeMismatch expected found =>
    place.kind = found ∧ found.name ≠ expected.describe ∧ ¬expected.Admits place
  | unknownObjectType name => place = .string name ∧ ObjectType.ofName? name = none
  | dottedComponentName name => LastKey path name ∧ '.' ∈ name.toList
  | unknownAttribute type name => LastKey path name ∧ type.declared? name = none
  | unknownMeasureCategory name => LastKey path name ∧ MeasureCategory.ofName? name = none
  | unknownMeasureKey category name =>
    LastKey path name ∧ HvacModel.Measure.target? category name = none
  | invalidLoopKind text =>
    place = .string text ∧ ∀ kind, LoopKind.ofName? text = some kind → kind.isPlant = false
  | invalidTimeKey text fault => LastKey path text ∧ Read.keyTime text = .error fault
  | timeKeysNotIncreasing previous key =>
    key ≤ previous ∧ ∃ text, LastKey path text ∧ Read.keyTime text = .ok key
  | dayMustStartAtMidnight first => place.kind = .object ∧ first ≠ .midnight
  | emptyDay => place = .object []

/-- The place of an issue leads to a value, and what it says is true there. -/
def Issue.TrueIn (root : Value) (issue : Issue) : Prop :=
  ∃ place, root.Leads issue.path place ∧ issue.kind.TrueAt issue.path place

/-- The name of a kind of values is that of an expectation only if they meet it. -/
theorem name_ne_describe {expected : Expectation} {value : Value} (h : ¬expected.Admits value) :
    value.kind.name ≠ expected.describe := by
  intro heq
  apply h
  cases expected <;> cases value <;>
    first | trivial | simp [Value.kind, Value.Kind.name, Expectation.describe] at heq

/-! ### Readings -/

namespace Read

open Report (whenSome collect)

variable {α β : Type} {root value : Value} {path : Path} {fields : List (String × Value)}

/-- Every issue is at a place of a value and true there. -/
def Truthful (root : Value) (r : Reading α) : Prop := ∀ issue ∈ r.findings, issue.TrueIn root

@[simp]
theorem truthful_pure (a : α) : Truthful root (pure a : Reading α) := fun _ h => nomatch h

theorem truthful_bind {r : Reading α} {f : α → Reading β} (hr : Truthful root r)
    (hf : Truthful root (f r.value)) : Truthful root (r >>= f) := by
  unfold Truthful
  rw [Report.findings_bind, List.forall_mem_append]
  exact ⟨hr, hf⟩

theorem truthful_whenSome {a : Option α} {step : α → Reading (Option β)}
    (h : ∀ x, a = some x → Truthful root (step x)) : Truthful root (whenSome a step) := by
  cases a with
  | none => exact truthful_pure none
  | some x => exact h x rfl

theorem truthful_issue {place : Value} {kind : IssueKind} (h : root.Leads path place)
    (hkind : kind.TrueAt path place) : Truthful root (issue path kind) :=
  List.forall_mem_singleton.mpr ⟨place, h, hkind⟩

/-- A report and the value that is absent with it. -/
theorem truthful_refusal {place : Value} {kind : IssueKind} (h : root.Leads path place)
    (hkind : kind.TrueAt path place) (a : α) :
    Truthful root (issue path kind >>= fun _ => pure a) :=
  truthful_bind (truthful_issue h hkind) (truthful_pure a)

theorem truthful_mismatch {expected : Expectation} (h : root.Leads path value)
    (hvalue : ¬expected.Admits value) (a : α) :
    Truthful root (mismatch path expected value >>= fun _ => pure a) := by
  refine truthful_refusal h ?_ a
  exact ⟨rfl, name_ne_describe hvalue, hvalue⟩

@[simp]
theorem lastKey_child (path : Path) (key : String) : LastKey (path.child key) key :=
  List.getLast?_concat

/-! ### Scalars -/

theorem truthful_object (h : root.Leads path value) : Truthful root (object path value) := by
  cases value with
  | object fields => exact truthful_pure _
  | null | bool _ | number _ | string _ | array _ => exact truthful_mismatch h id none

theorem truthful_string (h : root.Leads path value) : Truthful root (string path value) := by
  cases value with
  | string s => exact truthful_pure _
  | null | bool _ | number _ | array _ | object _ => exact truthful_mismatch h id none

theorem truthful_number (h : root.Leads path value) : Truthful root (number path value) := by
  cases value with
  | number n => exact truthful_pure _
  | null | bool _ | string _ | array _ | object _ => exact truthful_mismatch h id none

theorem truthful_boolean (h : root.Leads path value) : Truthful root (boolean path value) := by
  cases value with
  | bool b => exact truthful_pure _
  | null | number _ | string _ | array _ | object _ => exact truthful_mismatch h id none

theorem truthful_integer (h : root.Leads path value) : Truthful root (integer path value) := by
  cases value with
  | number n =>
      rw [integer]
      cases hn : n.integer? with
      | some i => exact truthful_pure _
      | none =>
          refine truthful_mismatch h ?_ none
          rw [Expectation.Admits, hn]
          exact Bool.false_ne_true
  | null | bool _ | string _ | array _ | object _ => exact truthful_mismatch h id none

/-! ### Parts of objects -/

/-- A reader of the fields of an object. -/
theorem truthful_inObject {step : List (String × Value) → Reading (Option β)}
    (h : root.Leads path value)
    (hstep : ∀ fields, root.Leads path (.object fields) → Truthful root (step fields)) :
    Truthful root (object path value >>= fun found => whenSome found step) := by
  refine truthful_bind (truthful_object h) (truthful_whenSome fun fields hfields => ?_)
  rw [value_object] at hfields
  cases value with
  | object _ =>
      cases hfields
      exact hstep _ h
  | null | bool _ | number _ | string _ | array _ => cases hfields

/-- A reader of an optional field. -/
theorem truthful_inField {step : Value → Reading (Option β)} {key : String}
    (h : root.Leads path (.object fields))
    (hstep : ∀ value, root.Leads (path.child key) value → Truthful root (step value)) :
    Truthful root (whenSome (Value.field? fields key) step) :=
  truthful_whenSome fun value hvalue => hstep value (h.child (Value.mem_of_field? hvalue))

theorem notMem_keys_of_field?_eq_none {key : String} (h : Value.field? fields key = none) :
    key ∉ fields.map Prod.fst := by
  intro hmem
  obtain ⟨e, he, rfl⟩ := List.mem_map.mp hmem
  simpa using List.lookup_eq_none_iff.mp h e he

theorem truthful_required (h : root.Leads path (.object fields)) (key : String) :
    Truthful root (required path fields key) := by
  unfold required
  cases hfield : Value.field? fields key with
  | some value => exact truthful_pure _
  | none =>
      refine truthful_refusal h ?_ none
      exact ⟨fields, rfl, notMem_keys_of_field?_eq_none hfield⟩

/-- A reader of a field that must be there. -/
theorem truthful_inRequired {step : Value → Reading (Option β)} {key : String}
    (h : root.Leads path (.object fields))
    (hstep : ∀ value, root.Leads (path.child key) value → Truthful root (step value)) :
    Truthful root (required path fields key >>= fun found => whenSome found step) := by
  refine truthful_bind (truthful_required h key) (truthful_whenSome fun value hvalue => ?_)
  rw [value_required] at hvalue
  exact hstep value (h.child (Value.mem_of_field? hvalue))

/-- A reader of each entry. -/
theorem truthful_collect {step : String × Value → Reading (Option β)}
    (h : root.Leads path (.object fields))
    (hstep : ∀ e, root.Leads (path.child e.1) e.2 → Truthful root (step e)) :
    Truthful root (collect step fields) := by
  unfold Truthful
  rw [Report.findings_collect, List.forall_mem_flatMap]
  exact fun e he => hstep e (h.child he)

/-- A reader of a table. -/
theorem truthful_table {step : String × Value → Reading (Option α)} (h : root.Leads path value)
    (hstep : ∀ e : String × Value, root.Leads (path.child e.1) e.2 → Truthful root (step e)) :
    Truthful root (object path value >>= fun found => whenSome found fun fields =>
      collect step fields >>= fun list => pure (some list)) :=
  truthful_inObject h fun _ hfields =>
    truthful_bind (truthful_collect hfields hstep) (truthful_pure _)

/-- A reader of a table that may be missing. -/
theorem truthful_optionalTable {read : Path → String × Value → Reading (Option α)}
    (h : root.Leads path (.object fields)) (key : String)
    (hread : ∀ (place : Path) (e : String × Value), root.Leads (place.child e.1) e.2 →
      Truthful root (read place e)) : Truthful root (optionalTable path fields key read) :=
  truthful_bind (truthful_inField h fun _ hvalue => truthful_table hvalue (hread _))
    (truthful_pure _)

theorem truthful_checkFields (h : root.Leads path (.object fields)) (allowed : List String) :
    Truthful root (checkFields path allowed fields) := by
  -- The check goes on with what is left of the fields, which are no object of their own.
  have hall : ∀ entries, entries ⊆ fields → Truthful root (checkFields path allowed entries) := by
    intro entries hsub
    induction entries with
    | nil => exact truthful_pure ()
    | cons e rest ih =>
        obtain ⟨he, hrest⟩ := List.cons_subset.mp hsub
        rw [checkFields]
        by_cases hk : e.1 ∈ allowed
        · rw [if_pos hk]
          exact ih hrest
        · rw [if_neg hk]
          exact truthful_bind (truthful_issue (h.child he) (lastKey_child path e.1)) (ih hrest)
  exact hall fields (List.Subset.refl fields)

theorem truthful_requiredString (h : root.Leads path (.object fields)) (key : String) :
    Truthful root (requiredString path fields key) :=
  truthful_inRequired h fun _ => truthful_string

/-- A reader of a text that must be there. -/
theorem truthful_inRequiredString {step : String → Reading (Option β)} {key : String}
    (h : root.Leads path (.object fields))
    (hstep : ∀ text, root.Leads (path.child key) (.string text) → Truthful root (step text)) :
    Truthful root (requiredString path fields key >>= fun found => whenSome found step) := by
  refine truthful_bind (truthful_requiredString h key) (truthful_whenSome fun text htext => ?_)
  rw [value_requiredString] at htext
  obtain ⟨value, hvalue, htext⟩ := Option.bind_eq_some_iff.mp htext
  have hplace := h.child (Value.mem_of_field? hvalue)
  cases value with
  | string s =>
      cases htext
      exact hstep text hplace
  | null | bool _ | number _ | array _ | object _ => cases htext

theorem truthful_requiredInteger (h : root.Leads path (.object fields)) (key : String) :
    Truthful root (requiredInteger path fields key) :=
  truthful_inRequired h fun _ => truthful_integer

theorem truthful_nameOr (h : root.Leads path (.object fields)) (key : String) :
    Truthful root (nameOr path fields key) :=
  truthful_bind (truthful_inField h fun _ => truthful_string) (truthful_pure _)

/-- The names from a position on are read at the places that follow it. -/
theorem truthful_names {items : List Value} (h : root.Leads path (.array items)) (position : Nat) :
    Truthful root (names path position (items.drop position)) := by
  induction hrest : items.drop position generalizing position with
  | nil => exact truthful_pure []
  | cons item rest ih =>
      have hitem : items[position]? = some item := by
        rw [← List.head?_drop, hrest, List.head?_cons]
      have hdrop : items.drop (position + 1) = rest := by
        rw [← List.tail_drop, hrest, List.tail_cons]
      rw [names]
      refine truthful_bind (truthful_string (h.item hitem)) ?_
      exact truthful_bind (ih (position + 1) hdrop) (truthful_pure _)

theorem truthful_nameList (h : root.Leads path value) : Truthful root (nameList path value) := by
  cases value with
  | string s => exact truthful_pure _
  | array items => exact truthful_names h 0
  | null | bool _ | number _ | object _ => exact truthful_mismatch h id []

/-! ### Attributes -/

theorem truthful_scalar (h : root.Leads path value) : Truthful root (scalar path value) := by
  cases value with
  | bool _ | number _ | string _ => exact truthful_pure _
  | null | array _ | object _ => exact truthful_mismatch h id none

theorem truthful_typedScalar (h : root.Leads path value) (kind : AttributeKind) :
    Truthful root (typedScalar path kind value) := by
  unfold typedScalar
  refine truthful_bind (truthful_scalar h) (truthful_whenSome fun v hv => ?_)
  by_cases hkind : v.kind = kind
  · rw [if_pos hkind]
    exact truthful_pure _
  · rw [if_neg hkind]
    refine truthful_mismatch h (fun hadmits => hkind ?_) none
    cases value with
    | null | array _ | object _ => cases hv
    | bool _ | number _ | string _ =>
        cases hv
        cases kind <;> first | rfl | exact hadmits.elim

theorem truthful_entry {read : Reading (Option α)} (h : Truthful root read) (key : String) :
    Truthful root (entry key read) :=
  truthful_bind h (truthful_pure _)

theorem truthful_openAttributes (h : root.Leads path (.object fields)) (except : List String) :
    Truthful root (openAttributes path except fields) := by
  refine truthful_bind (truthful_collect h fun e he => ?_) (truthful_pure _)
  by_cases hexcept : e.1 ∈ except
  · rw [if_pos hexcept]
    exact truthful_pure none
  · rw [if_neg hexcept]
    exact truthful_entry (truthful_scalar he) e.1

end Read

end Document

end HvacModel
