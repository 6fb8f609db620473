import HvacModel.Proofs.NameIndex
import HvacModel.Proofs.NameMap

/-! # Indexes of tables

The index of a table binds every name to the first position that holds it, and returns the names
that stand in the table before, which `repeats` lists (`NameIndex.Indexes`).

Names that are bound stay bound: an attempt to bind one again fails, says what it is bound to and
changes nothing, after any sequence of attempts (`NameIndex.Steady`). -/

namespace HvacModel

/-- Every member of a list with the members before it, which stand after others. -/
def splitsFrom {α : Type} (before : List α) : List α → List (List α × α)
  | [] => []
  | a :: rest => (before, a) :: splitsFrom (before ++ [a]) rest

/-- The names that stand in a list before, in the order of the list. -/
def repeats (names : List String) : List String :=
  ((splitsFrom [] names).filter fun s => s.2 ∈ s.1).map Prod.snd

/-! ### Members and what stands before them -/

theorem mem_splitsFrom_iff {α : Type} {before list : List α} {s : List α × α} :
    s ∈ splitsFrom before list ↔
      ∃ front rest, s.1 = before ++ front ∧ list = front ++ s.2 :: rest := by
  induction list generalizing before with
  | nil => simp [splitsFrom]
  | cons a list ih =>
      rw [splitsFrom, List.mem_cons, ih]
      constructor
      · rintro (rfl | ⟨front, rest, hs, rfl⟩)
        · exact ⟨[], list, (List.append_nil _).symm, rfl⟩
        · exact ⟨a :: front, rest, by rw [hs, List.append_assoc]; rfl, rfl⟩
      · rintro ⟨front, rest, hs, heq⟩
        cases front with
        | nil =>
            obtain ⟨rfl, rfl⟩ := List.cons.inj heq
            rw [List.append_nil] at hs
            exact .inl (Prod.ext hs rfl)
        | cons b front =>
            obtain ⟨rfl, rfl⟩ := List.cons.inj heq
            exact .inr ⟨front, rest, by rw [hs, List.append_assoc]; rfl, rfl⟩

/-! ### Repeated names -/

theorem repeated_splitsFrom_eq_nil_iff (before names : List String) :
    ((splitsFrom before names).filter fun s => s.2 ∈ s.1) = [] ↔
      names.Nodup ∧ ∀ n ∈ names, n ∉ before := by
  induction names generalizing before with
  | nil => simp [splitsFrom]
  | cons n rest ih =>
      rw [splitsFrom, List.filter_cons, List.nodup_cons, List.forall_mem_cons]
      by_cases hn : n ∈ before
      · simp [hn]
      · rw [if_neg (by simpa using hn), ih]
        simp only [List.mem_append, List.mem_singleton, not_or, forall_and]
        constructor
        · rintro ⟨hrest, hbefore, hne⟩
          exact ⟨⟨fun hmem => hne n hmem rfl, hrest⟩, hn, hbefore⟩
        · rintro ⟨⟨hmem, hrest⟩, -, hbefore⟩
          exact ⟨hrest, hbefore, fun m hm heq => hmem (heq ▸ hm)⟩

/-- Nothing is repeated among different names. -/
theorem repeats_eq_nil_iff (names : List String) : repeats names = [] ↔ names.Nodup := by
  rw [repeats, List.map_eq_nil_iff, repeated_splitsFrom_eq_nil_iff]
  simp

namespace NameIndex

variable {entity : Entity}

/-! ### Later attempts -/

/-- Attempts change nothing that is bound.  They fail exactly for the names that are bound, with the
handles of these. -/
structure Steady (index : NameIndex entity) : Prop where
  find? : ∀ calls name,
    (index.after calls).find? name = (index.find? name).or (calls.lookup name)
  keeps : ∀ calls more name handle, (index.after calls).find? name = some handle →
    (index.after (calls ++ more)).find? name = some handle
  fails : ∀ calls name handle bound, (index.after calls).insertNew name handle = .error bound ↔
    (index.after calls).find? name = some bound
  unchanged : ∀ calls name handle bound, (index.after calls).insertNew name handle = .error bound →
    index.after (calls ++ [(name, handle)]) = index.after calls
  binds : ∀ calls name handle extended,
    (index.after calls).insertNew name handle = .ok extended →
      index.after (calls ++ [(name, handle)]) = extended ∧
      extended.find? name = some handle ∧
      ∀ other, other ≠ name → extended.find? other = (index.after calls).find? other

theorem steady (index : NameIndex entity) : index.Steady where
  find? := find?_after index
  keeps calls more name handle h := by
    rw [after_append, find?_after, h, Option.some_or]
  fails calls name handle bound := insertNew_eq_error_iff _ name handle bound
  unchanged calls name handle bound h := by
    rw [after_append]
    exact attempt_of_error h
  binds calls name handle extended h := by
    refine ⟨?_, ?_, fun other hne => ?_⟩
    · rw [after_append]
      exact attempt_of_ok h
    · obtain ⟨-, rfl⟩ := find?_insertNew h
      rw [NameMap.find?_insert, if_pos rfl]
    · obtain ⟨-, rfl⟩ := find?_insertNew h
      rw [NameMap.find?_insert, if_neg hne]

/-! ### The index of a table -/

/-- Binding names returns those that are bound or stand before. -/
theorem bindFrom_snd (index : NameIndex entity) (first : Nat)
    {before : List String} (hindex : ∀ n, index.find? n = none ↔ n ∉ before)
    (names : List String) : (bindFrom index first names).2 =
      ((splitsFrom before names).filter fun s => s.2 ∈ s.1).map Prod.snd := by
  induction names generalizing index first before with
  | nil => rfl
  | cons n rest ih =>
      rw [bindFrom, splitsFrom]
      cases hn : index.insertNew n ⟨first⟩ with
      | ok extended =>
          obtain ⟨hnone, rfl⟩ := find?_insertNew hn
          have hfresh := (hindex n).mp hnone
          dsimp only
          rw [List.filter_cons_of_neg (by simpa using hfresh)]
          refine ih _ _ fun m => ?_
          rw [NameMap.find?_insert, List.mem_append, List.mem_singleton, not_or, ← hindex]
          by_cases hm : m = n
          · simp [hm]
          · simp [hm]
      | error bound =>
          have hbound := (insertNew_eq_error_iff index n ⟨first⟩ bound).mp hn
          have hmem : n ∈ before := by
            by_contra hfresh
            rw [(hindex n).mpr hfresh] at hbound
            cases hbound
          dsimp only
          rw [List.filter_cons_of_pos (by simpa using hmem), List.map_cons]
          refine congrArg (n :: ·) (ih _ _ fun m => ?_)
          rw [List.mem_append, List.mem_singleton, not_or, ← hindex]
          refine (and_iff_left_of_imp fun hm => ?_).symm
          rintro rfl
          rw [hm] at hbound
          cases hbound

theorem ofNames_snd (names : List String) :
    (ofNames names : NameIndex entity × List String).2 = repeats names :=
  bindFrom_snd _ _ (by simp) names

theorem isSome_find?_ofNames (names : List String) (name : String) :
    ((ofNames names : NameIndex entity × List String).1.find? name).isSome =
      decide (name ∈ names) := by
  rw [find?_ofNames, Option.isSome_map, List.findIdx?_isSome]
  apply Bool.eq_iff_iff.mpr
  simp

/-- Every name of a list is bound or returned. -/
theorem size_bindFrom (index : NameIndex entity) (first : Nat) (names : List String) :
    (bindFrom index first names).1.size + (bindFrom index first names).2.length =
      index.size + names.length := by
  induction names generalizing index first with
  | nil => rfl
  | cons n rest ih =>
      rw [bindFrom, List.length_cons]
      cases hn : index.insertNew n ⟨first⟩ with
      | ok extended =>
          obtain ⟨hnone, rfl⟩ := find?_insertNew hn
          have hrest := ih (index.insert n ⟨first⟩) (first + 1)
          rw [NameMap.size_insert _ hnone] at hrest
          dsimp only
          omega
      | error bound =>
          have hrest := ih index (first + 1)
          dsimp only
          rw [List.length_cons]
          omega

/-- A name is bound to the first position that holds it. -/
theorem find?_ofNames_eq_some_iff (names : List String) (name : String) (handle : Handle entity) :
    (ofNames names : NameIndex entity × List String).1.find? name = some handle ↔
      names[handle.index]? = some name ∧ ∀ j < handle.index, names[j]? ≠ some name := by
  have hmap : (names.findIdx? (· = name)).map Handle.mk = some handle ↔
      names.findIdx? (· = name) = some handle.index := by
    cases names.findIdx? (· = name) with
    | none => simp
    | some i => cases handle; simp
  rw [find?_ofNames, hmap, List.findIdx?_eq_some_iff_getElem]
  constructor
  · rintro ⟨hlt, hname, hbefore⟩
    refine ⟨List.getElem?_eq_some_iff.mpr ⟨hlt, of_decide_eq_true hname⟩, fun j hj hother => ?_⟩
    obtain ⟨hjlt, hj'⟩ := List.getElem?_eq_some_iff.mp hother
    exact hbefore j hj (decide_eq_true hj')
  · rintro ⟨hname, hbefore⟩
    obtain ⟨hlt, hname⟩ := List.getElem?_eq_some_iff.mp hname
    refine ⟨hlt, decide_eq_true hname, fun j hj hother => ?_⟩
    have hjlt : j < names.length := Nat.lt_trans hj hlt
    exact hbefore j hj (List.getElem?_eq_some_iff.mpr ⟨hjlt, of_decide_eq_true hother⟩)

/-- A name that the table has not is not bound. -/
theorem find?_ofNames_eq_none_iff (names : List String) (name : String) :
    (ofNames names : NameIndex entity × List String).1.find? name = none ↔ name ∉ names := by
  rw [← Option.not_isSome_iff_eq_none, isSome_find?_ofNames, decide_eq_true_iff]

/-- An index with a list of names says of a table at which position a name stands first and which
names stand at the other positions. -/
structure Indexes (names : List String) (index : NameIndex entity × List String) : Prop where
  /-- Every position of the table has a handle. -/
  handle : ∀ i < names.length, Handle.ofIndex? i = some (⟨i⟩ : Handle entity)
  bound : ∀ name handle, index.1.find? name = some handle ↔
    names[handle.index]? = some name ∧ ∀ j < handle.index, names[j]? ≠ some name
  unbound : ∀ name, index.1.find? name = none ↔ name ∉ names
  sorted : index.1.names.Pairwise (· < ·)
  entries : ∀ name handle, (name, handle) ∈ index.1.entries ↔ index.1.find? name = some handle
  repeated : index.2 = repeats names
  size : index.1.size + index.2.length = names.length

/-- The index of a table binds every name to the first position that holds it and returns the names
at all others, and later attempts to bind names change nothing of that. -/
theorem indexes_ofNames (names : List String) (hn : names.length < Handle.limit) :
    Indexes names (ofNames names : NameIndex entity × List String) ∧
      Steady (ofNames names : NameIndex entity × List String).1 := by
  refine ⟨?_, steady _⟩
  constructor
  case handle => exact fun i hi => if_pos (Nat.lt_trans hi hn)
  case bound => exact find?_ofNames_eq_some_iff names
  case unbound => exact find?_ofNames_eq_none_iff names
  case sorted => exact List.pairwise_map.mpr (ofNames names).1.sorted
  case entries => exact fun name handle => (NameMap.find?_eq_some_iff_mem _ name handle).symm
  case repeated => exact ofNames_snd names
  case size =>
    have hsize := size_bindFrom (.empty : NameIndex entity) 0 names
    rwa [NameMap.size_empty, Nat.zero_add] at hsize

/-- Equipment with a fan listed twice. -/
def equipment : List String := ["fan", "coil", "fan", "pump"]

def equipmentIndex : NameIndex .component × List String := ofNames equipment

/-- What is bound later finds the fan taken and the duct free, once. -/
theorem indexes_equipment :
    equipment.length < Handle.limit ∧ Indexes equipment equipmentIndex ∧
      Steady equipmentIndex.1 ∧ equipmentIndex.1.find? "pump" = some ⟨3⟩ ∧
      (equipmentIndex.1.after [("fan", ⟨7⟩), ("duct", ⟨9⟩)]).insertNew "duct" ⟨2⟩ =
        .error ⟨9⟩ := by
  have hlength : equipment.length < Handle.limit := by decide
  obtain ⟨hindexes, hsteady⟩ : Indexes equipment equipmentIndex ∧ Steady equipmentIndex.1 :=
    indexes_ofNames equipment hlength
  refine ⟨hlength, hindexes, hsteady, ?_, ?_⟩
  · exact (hindexes.bound "pump" ⟨3⟩).mpr ⟨rfl, by decide⟩
  · rw [hsteady.fails, hsteady.find?, (hindexes.unbound "duct").mpr (by decide)]
    rfl

end NameIndex

end HvacModel
