import Mathlib.Data.List.Induction
import HvacModel.NameMap

/-! # Entries and lookups

Looking a key up in an association list gives its first entry (`lookup_eq_map_find?`), and where no
key is repeated any entry of it (`lookup_eq_some_iff_mem`).  A map that is made of a sequence holds
entries of the sequence (`mem_of_find?_ofList`). -/

namespace HvacModel.NameMap

variable {α : Type}

theorem lookup_eq_some_iff_mem {entries : List (String × α)}
    (hn : (entries.map Prod.fst).Nodup) (key : String) (value : α) :
    entries.lookup key = some value ↔ (key, value) ∈ entries := by
  induction entries with
  | nil => simp
  | cons entry rest ih =>
      obtain ⟨k, v⟩ := entry
      obtain ⟨hk, hrest⟩ := List.nodup_cons.mp hn
      rw [lookup_cons_ite]
      by_cases h : key = k
      · subst h
        have hrest : (key, value) ∉ rest := fun hmem =>
          hk (List.mem_map.mpr ⟨(key, value), hmem, rfl⟩)
        simp [hrest, eq_comm]
      · simp [h, ih hrest]

/-- Looking a key up is finding its first entry. -/
theorem lookup_eq_map_find? (entries : List (String × α)) (key : String) :
    entries.lookup key = (entries.find? fun e => e.1 = key).map Prod.snd := by
  induction entries with
  | nil => rfl
  | cons entry rest ih =>
      obtain ⟨k, v⟩ := entry
      rw [lookup_cons_ite, ih]
      by_cases h : key = k
      · simp [h]
      · rw [if_neg h, List.find?_cons_of_neg (by simpa using fun e => h e.symm)]

/-- No name is bound twice. -/
theorem nodup_names (m : NameMap α) : (m.entries.map Prod.fst).Nodup := by
  refine (List.pairwise_map.mpr m.sorted).imp fun hlt heq => ?_
  rw [heq] at hlt
  exact String.lt_irrefl _ hlt

/-- A map holds exactly its entries. -/
theorem find?_eq_some_iff_mem (m : NameMap α) (name : String) (value : α) :
    m.find? name = some value ↔ (name, value) ∈ m.entries :=
  lookup_eq_some_iff_mem m.nodup_names name value

/-! ### Sizes -/

theorem length_insertEntry {name : String} (value : α) {entries : List (String × α)}
    (h : entries.lookup name = none) :
    (insertEntry name value entries).length = entries.length + 1 := by
  induction entries with
  | nil => rfl
  | cons entry rest ih =>
      obtain ⟨k, v⟩ := entry
      rw [lookup_cons_ite] at h
      have hne : name ≠ k := fun e => by simp [e] at h
      rw [if_neg hne] at h
      rw [insertEntry]
      split
      · rfl
      · split
        · rw [List.length_cons, ih h, List.length_cons]
        · rename_i hlt hgt
          exact absurd (eq_of_not_lt hlt hgt) hne

/-- A new name is one more entry. -/
theorem size_insert {m : NameMap α} {name : String} (value : α) (h : m.find? name = none) :
    (m.insert name value).size = m.size + 1 :=
  length_insertEntry value h

theorem size_empty : (empty : NameMap α).size = 0 := rfl

/-! ### Maps of sequences -/

theorem ofList_append (entries : List (String × α)) (e : String × α) :
    ofList (entries ++ [e]) = (ofList entries).insert e.1 e.2 := by
  unfold ofList
  rw [List.foldl_append]
  rfl

/-- A map of a sequence holds nothing but its entries. -/
theorem mem_of_find?_ofList {entries : List (String × α)} {name : String} {value : α}
    (h : (ofList entries).find? name = some value) : (name, value) ∈ entries := by
  induction entries using List.reverseRecOn with
  | nil => cases h
  | append_singleton rest e ih =>
      obtain ⟨k, v⟩ := e
      rw [ofList_append, find?_insert] at h
      rw [List.mem_append, List.mem_singleton]
      by_cases hk : name = k
      · rw [if_pos hk, Option.some.injEq] at h
        exact .inr (Prod.ext hk h.symm)
      · rw [if_neg hk] at h
        exact .inl (ih h)

theorem isSome_find?_ofList (entries : List (String × α)) (name : String) :
    ((ofList entries).find? name).isSome ↔ ∃ value, (name, value) ∈ entries := by
  induction entries using List.reverseRecOn with
  | nil => simp [ofList]
  | append_singleton rest e ih =>
      obtain ⟨k, v⟩ := e
      rw [ofList_append, find?_insert]
      by_cases hk : name = k
      · simp [hk]
      · simp [hk, ih]

/-- Where no name is repeated, the map of a sequence holds exactly its entries. -/
theorem find?_ofList_eq_some_iff_mem {entries : List (String × α)}
    (hn : (entries.map Prod.fst).Nodup) (name : String) (value : α) :
    (ofList entries).find? name = some value ↔ (name, value) ∈ entries := by
  constructor
  · exact mem_of_find?_ofList
  · intro hmem
    obtain ⟨found, hfound⟩ := Option.isSome_iff_exists.mp
      ((isSome_find?_ofList entries name).mpr ⟨value, hmem⟩)
    have hsame := (lookup_eq_some_iff_mem hn name found).mpr (mem_of_find?_ofList hfound)
    rw [(lookup_eq_some_iff_mem hn name value).mpr hmem, Option.some.injEq] at hsame
    rw [hfound, hsame]

/-- A map is the map of its entries. -/
theorem ofList_entries (m : NameMap α) : ofList m.entries = m := by
  apply ext_find?
  intro name
  apply Option.ext
  intro value
  rw [find?_ofList_eq_some_iff_mem m.nodup_names, find?_eq_some_iff_mem]

/-- Where no name is repeated, the order of a sequence has no influence on its map. -/
theorem ofList_of_perm {entries entries' : List (String × α)}
    (hn : (entries.map Prod.fst).Nodup) (hp : entries.Perm entries') :
    ofList entries = ofList entries' := by
  have hn' : (entries'.map Prod.fst).Nodup := (hp.map Prod.fst).nodup_iff.mp hn
  apply ext_find?
  intro name
  apply Option.ext
  intro value
  rw [find?_ofList_eq_some_iff_mem hn, find?_ofList_eq_some_iff_mem hn', hp.mem_iff]

end HvacModel.NameMap
