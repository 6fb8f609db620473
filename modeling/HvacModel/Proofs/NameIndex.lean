import HvacModel.NameIndex

/-! # Looking names up in an index

After a sequence of attempts to bind names, a name is bound to what it was bound to before, or else
to what the first attempt with it says (`NameIndex.find?_after`).

The index of a table is made by such attempts, so it leads from a name to the first position where
the table has it (`NameIndex.find?_ofNames`), whatever later entries repeat the name. -/

namespace HvacModel.NameIndex

variable {entity : Entity}

theorem find?_insertNew {index extended : NameIndex entity} {name : String}
    {handle : Handle entity} (h : index.insertNew name handle = .ok extended) :
    index.find? name = none ∧ extended = index.insert name handle := by
  unfold insertNew at h
  cases hf : index.find? name with
  | some bound => simp [hf] at h
  | none =>
      rw [hf] at h
      exact ⟨rfl, (Except.ok.inj h).symm⟩

theorem insertNew_eq_error_iff (index : NameIndex entity) (name : String)
    (handle bound : Handle entity) :
    index.insertNew name handle = .error bound ↔ index.find? name = some bound := by
  unfold insertNew
  cases index.find? name with
  | none => simp
  | some found => simp

/-! ### Attempts to bind names -/

/-- The index after an attempt to bind a name, which is the same index where the name is bound. -/
def attempt (index : NameIndex entity) (call : String × Handle entity) : NameIndex entity :=
  (index.insertNew call.1 call.2).toOption.getD index

/-- The index after a sequence of attempts. -/
def after (index : NameIndex entity) (calls : List (String × Handle entity)) : NameIndex entity :=
  calls.foldl attempt index

theorem attempt_of_error {index : NameIndex entity} {name : String} {handle bound : Handle entity}
    (h : index.insertNew name handle = .error bound) : index.attempt (name, handle) = index := by
  rw [attempt, h]
  rfl

theorem attempt_of_ok {index extended : NameIndex entity} {name : String} {handle : Handle entity}
    (h : index.insertNew name handle = .ok extended) :
    index.attempt (name, handle) = extended := by
  rw [attempt, h]
  rfl

/-- What one attempt does to the lookups. -/
theorem find?_attempt (index : NameIndex entity) (call : String × Handle entity) (name : String) :
    (index.attempt call).find? name =
      (index.find? name).or (if name = call.1 then some call.2 else none) := by
  obtain ⟨called, handle⟩ := call
  cases hc : index.insertNew called handle with
  | error bound =>
      have hbound := (insertNew_eq_error_iff index called handle bound).mp hc
      rw [attempt_of_error hc]
      by_cases h : name = called
      · rw [h, hbound, Option.some_or]
      · rw [if_neg h, Option.or_none]
  | ok extended =>
      obtain ⟨hnone, rfl⟩ := find?_insertNew hc
      rw [attempt_of_ok hc, NameMap.find?_insert]
      by_cases h : name = called
      · rw [if_pos h, if_pos h, h, hnone, Option.none_or]
      · rw [if_neg h, if_neg h, Option.or_none]

/-- What is bound stays bound; any other name is bound by the first attempt with it. -/
theorem find?_after (index : NameIndex entity) (calls : List (String × Handle entity))
    (name : String) : (index.after calls).find? name = (index.find? name).or (calls.lookup name) := by
  induction calls generalizing index with
  | nil => rw [List.lookup_nil, Option.or_none]; rfl
  | cons call rest ih =>
      obtain ⟨called, handle⟩ := call
      have hstep : index.after ((called, handle) :: rest) =
          (index.attempt (called, handle)).after rest := rfl
      rw [hstep, ih, find?_attempt, NameMap.lookup_cons_ite, Option.or_assoc]
      by_cases h : name = called
      · rw [if_pos h, if_pos h, Option.some_or]
      · rw [if_neg h, if_neg h, Option.none_or]

theorem after_append (index : NameIndex entity) (calls more : List (String × Handle entity)) :
    index.after (calls ++ more) = (index.after calls).after more :=
  List.foldl_append

/-! ### Tables -/

theorem fst_bindFrom_cons (index : NameIndex entity) (first : Nat) (name : String)
    (rest : List String) : (bindFrom index first (name :: rest)).1 =
      (bindFrom (index.attempt (name, ⟨first⟩)) (first + 1) rest).1 := by
  rw [bindFrom, attempt]
  cases index.insertNew name ⟨first⟩ with
  | error bound => rfl
  | ok extended => rfl

/-- What is bound stays bound; a new name is bound to its first position. -/
theorem find?_bindFrom (index : NameIndex entity) (first : Nat) (names : List String)
    (name : String) : (bindFrom index first names).1.find? name =
      (index.find? name).or ((names.findIdx? (· = name)).map fun i => ⟨first + i⟩) := by
  induction names generalizing index first with
  | nil => simp [bindFrom]
  | cons n rest ih =>
      have hrest : (rest.findIdx? (· = name)).map (fun i => (⟨first + 1 + i⟩ : Handle entity)) =
          ((rest.findIdx? (· = name)).map (· + 1)).map fun i => ⟨first + i⟩ := by
        rw [Option.map_map]
        refine congrArg (fun f => Option.map f _) (funext fun i => ?_)
        rw [Function.comp_apply, Nat.add_assoc, Nat.add_comm 1]
      rw [fst_bindFrom_cons, ih, find?_attempt, hrest, List.findIdx?_cons, Option.or_assoc]
      by_cases h : name = n
      · subst h
        simp
      · rw [if_neg h, if_neg (by simpa using fun e => h e.symm), Option.none_or]

theorem find?_ofNames (names : List String) (name : String) :
    (ofNames names : NameIndex entity × List String).1.find? name =
      (names.findIdx? (· = name)).map Handle.mk := by
  rw [ofNames, find?_bindFrom, NameMap.find?_empty, Option.none_or]
  simp only [Nat.zero_add]

/-- The index of a table leads to the position of the entry that a search by name finds. -/
theorem rel_find?_ofNames {α : Type} (key : α → String) (table : List α) (name : String) :
    Option.Rel (fun (h : Handle entity) a => h.get? table = some a)
      ((ofNames (table.map key) : NameIndex entity × List String).1.find? name)
      (table.find? fun a => key a = name) := by
  rw [find?_ofNames, List.findIdx?_map, List.find?_eq_bind_findIdx?_getElem?]
  show Option.Rel _ ((table.findIdx? fun a => key a = name).map Handle.mk) _
  cases hi : table.findIdx? fun a => key a = name with
  | none => exact .none
  | some i =>
      obtain ⟨hlt, -⟩ := List.findIdx?_eq_some_iff_getElem.mp hi
      rw [Option.bind_some, List.getElem?_eq_getElem hlt]
      exact .some (List.getElem?_eq_getElem hlt)

/-- What an index leads to is a position of the table. -/
theorem lt_of_find?_ofNames {names : List String} {name : String} {h : Handle entity}
    (hf : (ofNames names : NameIndex entity × List String).1.find? name = some h) :
    h.index < names.length := by
  rw [find?_ofNames] at hf
  obtain ⟨i, hi, rfl⟩ := Option.map_eq_some_iff.mp hf
  obtain ⟨hlt, -⟩ := List.findIdx?_eq_some_iff_getElem.mp hi
  exact hlt

end HvacModel.NameIndex
