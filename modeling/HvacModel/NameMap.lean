/-! # Maps from names

A `NameMap` is a list of entries whose names strictly increase in the order of their code points.
The order is part of the type, so equal maps are equal lists: two maps with the same lookups are
the same map (`NameMap.ext_find?`).  `insert` replaces the value of a name that is there, and
`find?_insert` says what it does to the lookups. -/

namespace HvacModel

/-- A finite map from names, kept in increasing order of the names. -/
structure NameMap (α : Type) where
  entries : List (String × α)
  sorted : entries.Pairwise fun a b => a.1 < b.1

namespace NameMap

variable {α : Type}

instance [DecidableEq α] : DecidableEq (NameMap α) := fun a b =>
  decidable_of_iff (a.entries = b.entries) (by cases a; cases b; simp)

/-! ### Entries in order -/

/-- Put an entry into its place among increasing entries. -/
def insertEntry (name : String) (value : α) : List (String × α) → List (String × α)
  | [] => [(name, value)]
  | (k, v) :: rest =>
    if name < k then (name, value) :: (k, v) :: rest
    else if k < name then (k, v) :: insertEntry name value rest
    else (name, value) :: rest

theorem eq_of_not_lt {a b : String} (h : ¬a < b) (h' : ¬b < a) : a = b :=
  String.le_antisymm (String.not_lt.mp h') (String.not_lt.mp h)

theorem mem_insertEntry {name : String} {value : α} {entries : List (String × α)}
    {e : String × α} (h : e ∈ insertEntry name value entries) :
    e = (name, value) ∨ e ∈ entries := by
  induction entries with
  | nil => simpa [insertEntry] using h
  | cons entry rest ih =>
    obtain ⟨k, v⟩ := entry
    simp only [insertEntry] at h
    split at h
    · simpa using h
    · split at h
      · rcases List.mem_cons.mp h with h | h
        · exact Or.inr (by simp [h])
        · rcases ih h with h | h
          · exact Or.inl h
          · exact Or.inr (by simp [h])
      · rcases List.mem_cons.mp h with h | h
        · exact Or.inl h
        · exact Or.inr (by simp [h])

theorem sorted_insertEntry {name : String} {value : α} {entries : List (String × α)}
    (h : entries.Pairwise fun a b => a.1 < b.1) :
    (insertEntry name value entries).Pairwise fun a b => a.1 < b.1 := by
  induction entries with
  | nil => simp [insertEntry]
  | cons entry rest ih =>
    obtain ⟨k, v⟩ := entry
    obtain ⟨hk, hrest⟩ := List.pairwise_cons.mp h
    simp only [insertEntry]
    split
    · rename_i hlt
      refine List.pairwise_cons.mpr ⟨?_, h⟩
      intro e he
      rcases List.mem_cons.mp he with he | he
      · simpa [he] using hlt
      · exact String.lt_trans hlt (hk e he)
    · split
      · rename_i hgt
        refine List.pairwise_cons.mpr ⟨?_, ih hrest⟩
        intro e he
        rcases mem_insertEntry he with he | he
        · simpa [he] using hgt
        · exact hk e he
      · rename_i hlt hgt
        refine List.pairwise_cons.mpr ⟨?_, hrest⟩
        intro e he
        have := eq_of_not_lt hlt hgt
        simpa [this] using hk e he

/-! ### Operations -/

def empty : NameMap α := ⟨[], List.Pairwise.nil⟩

instance : Inhabited (NameMap α) := ⟨empty⟩

/-- The value of a name. -/
def find? (m : NameMap α) (name : String) : Option α := m.entries.lookup name

def contains (m : NameMap α) (name : String) : Bool := (m.find? name).isSome

def size (m : NameMap α) : Nat := m.entries.length

/-- Bind a name to a value. -/
def insert (m : NameMap α) (name : String) (value : α) : NameMap α :=
  ⟨insertEntry name value m.entries, sorted_insertEntry m.sorted⟩

/-- The map of a sequence of entries, the last one of a name deciding. -/
def ofList (entries : List (String × α)) : NameMap α :=
  entries.foldl (fun m e => m.insert e.1 e.2) empty

/-- The names in increasing order. -/
def names (m : NameMap α) : List String := m.entries.map Prod.fst

/-! ### Lookups -/

theorem lookup_cons_ite (k : String) (v : α) (rest : List (String × α)) (name : String) :
    ((k, v) :: rest).lookup name = if name = k then some v else rest.lookup name := by
  by_cases h : name = k
  · simp [h]
  · have : (name == k) = false := by simpa using h
    simp [List.lookup_cons, h, this]

theorem lookup_insertEntry (name : String) (value : α) (entries : List (String × α))
    (other : String) :
    (insertEntry name value entries).lookup other =
      if other = name then some value else entries.lookup other := by
  induction entries with
  | nil => simp [insertEntry, lookup_cons_ite]
  | cons entry rest ih =>
    obtain ⟨k, v⟩ := entry
    simp only [insertEntry]
    split
    · rw [lookup_cons_ite]
    · split
      · rename_i hgt
        rw [lookup_cons_ite, lookup_cons_ite, ih]
        by_cases hk : other = k
        · have hne : k ≠ name := fun e => by
            rw [e] at hgt
            exact String.lt_irrefl _ hgt
          simp [hk, hne]
        · simp [hk]
      · rename_i hlt hgt
        have hk := eq_of_not_lt hlt hgt
        rw [lookup_cons_ite, lookup_cons_ite, hk]
        by_cases h : other = k <;> simp [h]

/-- What binding a name does to the lookups. -/
@[simp]
theorem find?_insert (m : NameMap α) (name : String) (value : α) (other : String) :
    (m.insert name value).find? other = if other = name then some value else m.find? other :=
  lookup_insertEntry name value m.entries other

@[simp]
theorem find?_empty (name : String) : (empty : NameMap α).find? name = none := rfl

theorem lookup_eq_none_of_lt {entries : List (String × α)} {name : String}
    (h : ∀ e ∈ entries, name < e.1) : entries.lookup name = none := by
  induction entries with
  | nil => rfl
  | cons entry rest ih =>
    obtain ⟨k, v⟩ := entry
    have hne : name ≠ k := fun e => by
      have := h (k, v) (by simp)
      rw [← e] at this
      exact String.lt_irrefl _ this
    rw [lookup_cons_ite, if_neg hne]
    exact ih fun e he => h e (by simp [he])

/-- A name below all entries but the first one is not the name of the first one only. -/
theorem not_lt_of_lookup_eq {k k' : String} {v v' : α} {rest rest' : List (String × α)}
    (hk' : ∀ e ∈ rest', k' < e.1)
    (h : ∀ name, ((k, v) :: rest).lookup name = ((k', v') :: rest').lookup name) : ¬k < k' := by
  intro hlt
  have hnone : ((k', v') :: rest').lookup k = none :=
    lookup_eq_none_of_lt fun e he => by
      rcases List.mem_cons.mp he with he | he
      · simpa [he] using hlt
      · exact String.lt_trans hlt (hk' e he)
  have := h k
  rw [hnone, lookup_cons_ite, if_pos rfl] at this
  cases this

/-- Increasing entries with the same lookups are the same entries. -/
theorem entries_eq_of_lookup_eq {a b : List (String × α)}
    (ha : a.Pairwise fun x y => x.1 < y.1) (hb : b.Pairwise fun x y => x.1 < y.1)
    (h : ∀ name, a.lookup name = b.lookup name) : a = b := by
  induction a generalizing b with
  | nil =>
    cases b with
    | nil => rfl
    | cons e rest =>
      have := h e.1
      rw [lookup_cons_ite, if_pos rfl] at this
      cases this
  | cons e rest ih =>
    obtain ⟨k, v⟩ := e
    obtain ⟨hk, hrest⟩ := List.pairwise_cons.mp ha
    cases b with
    | nil =>
      have := h k
      rw [lookup_cons_ite, if_pos rfl] at this
      cases this
    | cons e' rest' =>
      obtain ⟨k', v'⟩ := e'
      obtain ⟨hk', hrest'⟩ := List.pairwise_cons.mp hb
      have hkk : k = k' := eq_of_not_lt (not_lt_of_lookup_eq hk' h)
        (not_lt_of_lookup_eq hk fun name => (h name).symm)
      subst hkk
      have hv : v = v' := by
        have := h k
        rw [lookup_cons_ite, lookup_cons_ite, if_pos rfl, if_pos rfl] at this
        exact Option.some.inj this
      subst hv
      congr 1
      refine ih hrest hrest' fun name => ?_
      by_cases hn : name = k
      · subst hn
        rw [lookup_eq_none_of_lt hk, lookup_eq_none_of_lt hk']
      · have := h name
        rwa [lookup_cons_ite, lookup_cons_ite, if_neg hn, if_neg hn] at this

/-- Maps with the same lookups are equal. -/
theorem ext_find? {a b : NameMap α} (h : ∀ name, a.find? name = b.find? name) : a = b := by
  have := entries_eq_of_lookup_eq a.sorted b.sorted h
  cases a; cases b; simp_all

end NameMap

end HvacModel
